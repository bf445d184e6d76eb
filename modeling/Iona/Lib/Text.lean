import Mathlib

/-! # Text -/

namespace Text

open List

/-- `char::is_whitespace`. -/
def isWhitespace (c : Char) : Bool :=
  let n := c.toNat
  (9 ≤ n && n ≤ 13) || n == 0x20 || n == 0x85 || n == 0xa0 || n == 0x1680 ||
    (0x2000 ≤ n && n ≤ 0x200a) || n == 0x2028 || n == 0x2029 || n == 0x202f || n == 0x205f ||
    n == 0x3000

/-- The words of what is left, with the word begun so far. -/
def wordsAux : List Char → List Char → List String
  | word, [] => if word.isEmpty then [] else [String.ofList word.reverse]
  | word, c :: cs =>
    if isWhitespace c then
      if word.isEmpty then wordsAux [] cs else String.ofList word.reverse :: wordsAux [] cs
    else wordsAux (c :: word) cs

/-- `split_whitespace`. -/
def splitWhitespace (s : String) : List String := wordsAux [] s.toList

/-- `trim_start`. -/
def trimStart (s : String) : String := String.ofList (s.toList.dropWhile isWhitespace)

/-- `trim`. -/
def trim (s : String) : String :=
  String.ofList ((s.toList.dropWhile isWhitespace).reverse.dropWhile isWhitespace).reverse

variable {cs : List Char}

/-- `strip_prefix`. -/
def stripPrefix (pre s : String) : Option String :=
  if pre.toList.isPrefixOf s.toList then some (String.ofList (s.toList.drop pre.toList.length))
  else none

/-- `starts_with`. -/
def startsWith (pre s : String) : Bool := pre.toList.isPrefixOf s.toList

/-- What follows the last `c`. -/
def lastSegment (c : Char) (s : String) : String :=
  String.ofList (s.toList.reverse.takeWhile (· != c)).reverse

/-- A row of decimal digits as a number. -/
def digits (cs : List Char) : Option ℕ :=
  if cs.isEmpty then none
  else cs.foldlM (fun acc c => if c.isDigit then some (acc * 10 + (c.toNat - 48)) else none) 0

/-- `parse` of an unsigned type with that maximum, which takes a leading plus. -/
def parseUnsigned (max : ℕ) (s : String) : Option ℕ :=
  let n := match s.toList with
    | '+' :: cs => digits cs
    | cs => digits cs
  n.filter (· ≤ max)

/-- `parse::<i64>`. -/
def parseI64 (s : String) : Option ℤ :=
  let n : Option ℤ := match s.toList with
    | '+' :: cs => (digits cs).map Int.ofNat
    | '-' :: cs => (digits cs).map fun n => -Int.ofNat n
    | cs => (digits cs).map Int.ofNat
  n.filter fun n => -2 ^ 63 ≤ n ∧ n < 2 ^ 63

/-! ### Numbers written in decimal -/

lemma foldlM_digits (h : ∀ c ∈ cs, c.isDigit = true) (acc : ℕ) :
    cs.foldlM (fun acc c => if c.isDigit then some (acc * 10 + (c.toNat - 48)) else none) acc =
      some (Nat.ofDigitChars 10 cs acc) := by
  induction cs generalizing acc with
  | nil => rfl
  | cons c cs ih =>
    obtain ⟨hc, hcs⟩ := forall_mem_cons.mp h
    rw [foldlM_cons, if_pos hc]
    refine (ih hcs _).trans ?_
    rw [Nat.ofDigitChars_cons, Nat.mul_comm acc]
    rfl

lemma digits_toDigits (n : ℕ) : digits (Nat.toDigits 10 n) = some n := by
  have hne : (Nat.toDigits 10 n).isEmpty = false := by
    simp
  rw [digits, hne]
  have hdigit : ∀ c ∈ Nat.toDigits 10 n, c.isDigit = true := fun c hc =>
    Nat.isDigit_of_mem_toDigits (by omega) (by omega) hc
  refine (foldlM_digits hdigit 0).trans ?_
  rw [Nat.ofDigitChars_toDigits (by omega) (by omega)]

lemma parseUnsigned_toString {n max : ℕ} (h : n ≤ max) :
    parseUnsigned max (toString n) = some n := by
  have hdigit : ∀ c ∈ Nat.toDigits 10 n, c.isDigit = true := fun c hc =>
    Nat.isDigit_of_mem_toDigits (by omega) (by omega) hc
  rw [parseUnsigned, Nat.toString_eq_repr, Nat.repr_eq_ofList_toDigits, String.toList_ofList]
  split
  · rename_i cs hcs
    rw [hcs] at hdigit
    exact absurd (hdigit '+' mem_cons_self) (by decide)
  · rw [digits_toDigits]
    simp [h]

lemma eq_of_append_sep {c : Char} {x y u v : List Char} (hy : c ∉ y) (hv : c ∉ v)
    (h : x ++ c :: y = u ++ c :: v) : y = v := by
  rcases append_eq_append_iff.mp h with ⟨a, -, ha⟩ | ⟨a, -, ha⟩
  · cases a with
    | nil => exact (List.cons.inj ha).2
    | cons d a => exact absurd ((List.cons.inj ha).2 ▸ by simp) hy
  · cases a with
    | nil => exact (List.cons.inj ha).2.symm
    | cons d a => exact absurd ((List.cons.inj ha).2 ▸ by simp) hv

lemma counter_inj {s t : String} {m n : ℕ}
    (h : s ++ "-" ++ toString m = t ++ "-" ++ toString n) : m = n := by
  have hdash : ∀ k : ℕ, '-' ∉ (toString k : String).toList := by
    intro k hk
    rw [Nat.toString_eq_repr, Nat.repr_eq_ofList_toDigits, String.toList_ofList] at hk
    exact absurd (Nat.isDigit_of_mem_toDigits (by omega) (by omega) hk) (by decide)
  have hlist := congrArg String.toList h
  simp only [String.toList_append] at hlist
  have hsep : ("-" : String).toList = ['-'] := rfl
  rw [hsep, append_assoc, append_assoc] at hlist
  exact Nat.repr_inj.mp (String.toList_inj.mp (eq_of_append_sep (hdash m) (hdash n) hlist))

/-! ### Texts that differ -/

/-- Neither text begins with the other. -/
def Apart (p q : String) : Prop := ¬ p.toList <+: q.toList ∧ ¬ q.toList <+: p.toList

instance (p q : String) : Decidable (Apart p q) := inferInstanceAs (Decidable (_ ∧ _))

lemma Apart.append_ne {p q : String} (h : Apart p q) (x y : String) : p ++ x ≠ q ++ y := by
  intro heq
  have hlist := congrArg String.toList heq
  rw [String.toList_append, String.toList_append] at hlist
  rcases prefix_or_prefix_of_prefix (prefix_append p.toList x.toList)
    (hlist ▸ prefix_append q.toList y.toList) with hp | hp
  · exact h.1 hp
  · exact h.2 hp

end Text
