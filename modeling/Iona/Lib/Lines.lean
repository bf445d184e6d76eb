import Mathlib

/-! # Lines of a file -/

namespace Lines

open List

/-- The end of a line. -/
def lf : UInt8 := 10

/-- What may stand before it. -/
def cr : UInt8 := 13

/-- A line read backwards, without a carriage return at its end. -/
def close (rev : List UInt8) : List UInt8 :=
  match rev with
  | [] => []
  | b :: rest => if b = cr then rest.reverse else rev.reverse

/-- The lines of what is left, with the line begun so far. -/
def linesAux : List UInt8 → List UInt8 → List (List UInt8)
  | rev, [] => if rev = [] then [] else [rev.reverse]
  | rev, b :: bytes => if b = lf then close rev :: linesAux [] bytes else linesAux (b :: rev) bytes

/-- `BufRead::lines`. -/
def lines (bytes : List UInt8) : List (List UInt8) := linesAux [] bytes

/-- The file is empty or ends with its last line ended. -/
def Clean (bytes : List UInt8) : Prop := bytes = [] ∨ bytes.getLast? = some lf

instance (bytes : List UInt8) : Decidable (Clean bytes) := instDecidableOr

variable {l : List UInt8}

@[simp] lemma lines_nil : lines [] = [] := rfl

lemma linesAux_append_lf (rev l rest : List UInt8) :
    linesAux rev (l ++ lf :: rest) = linesAux rev (l ++ [lf]) ++ linesAux [] rest := by
  induction l generalizing rev with
  | nil => simp [linesAux]
  | cons b l ih =>
    simp only [cons_append, linesAux]
    split
    · rw [ih, cons_append]
    · exact ih (b :: rev)

lemma lines_append (h : Clean l) (rest : List UInt8) :
    lines (l ++ rest) = lines l ++ lines rest := by
  rcases h with rfl | hlast
  · rfl
  · obtain ⟨l', rfl⟩ := getLast?_eq_some_iff.mp hlast
    rw [append_assoc]
    exact linesAux_append_lf [] l' rest

lemma linesAux_of_not_mem (h : lf ∉ l) (rev rest : List UInt8) :
    linesAux rev (l ++ rest) = linesAux (l.reverse ++ rev) rest := by
  induction l generalizing rev with
  | nil => rfl
  | cons b l ih =>
    obtain ⟨hb, hl⟩ := ne_and_not_mem_of_not_mem_cons h
    rw [cons_append, linesAux, if_neg (Ne.symm hb), ih hl, reverse_cons, append_assoc]
    rfl

lemma lines_unterminated (h : lf ∉ l) (hne : l ≠ []) : lines l = [l] := by
  have haux := linesAux_of_not_mem h [] []
  rw [append_nil, append_nil] at haux
  rw [lines, haux, linesAux, if_neg (by simpa using hne), reverse_reverse]

lemma lines_terminated (h : lf ∉ l) (hcr : cr ∉ l) : lines (l ++ [lf]) = [l] := by
  rw [lines, linesAux_of_not_mem h, append_nil, linesAux, if_pos rfl]
  have hclose : close l.reverse = l := by
    unfold close
    split
    · rename_i hnil
      rw [reverse_eq_nil_iff.mp hnil]
    · rename_i b rest hcons
      have hb : b ≠ cr := by
        rintro rfl
        exact hcr (mem_reverse.mp (hcons ▸ mem_cons_self))
      rw [if_neg hb, reverse_reverse]
  rw [hclose]
  rfl

/-! ### Records, one a line -/

section Records

variable {α : Type*} (encode : α → List UInt8)

/-- The file with one line for each value. -/
def unlines (xs : List α) : List UInt8 := xs.flatMap fun x => encode x ++ [lf]

@[simp] lemma unlines_nil : unlines encode ([] : List α) = [] := rfl

@[simp] lemma unlines_cons (x : α) (xs : List α) :
    unlines encode (x :: xs) = encode x ++ lf :: unlines encode xs := by
  simp [unlines]

lemma unlines_append (xs ys : List α) :
    unlines encode (xs ++ ys) = unlines encode xs ++ unlines encode ys := flatMap_append

/-- Where the lines of the values begin. -/
def offsets (start : ℕ) : List α → List ℕ
  | [] => []
  | x :: xs => start :: offsets (start + (encode x).length + 1) xs

@[simp] lemma length_offsets (start : ℕ) (xs : List α) :
    (offsets encode start xs).length = xs.length := by
  induction xs generalizing start with
  | nil => rfl
  | cons x xs ih => rw [offsets, length_cons, length_cons, ih]

/-- The file has the whole `line` at `off`. -/
def Holds (file : List UInt8) (off : ℕ) (line : List UInt8) : Prop :=
  ∃ before after, file = before ++ line ++ lf :: after ∧ before.length = off

lemma Holds.append {file line : List UInt8} {off : ℕ} (h : Holds file off line)
    (more : List UInt8) : Holds (file ++ more) off line := by
  obtain ⟨before, after, rfl, hoff⟩ := h
  exact ⟨before, after ++ more, by simp, hoff⟩

lemma holds_of_mem_offsets {file : List UInt8} {xs : List α} {y : α × ℕ}
    (h : y ∈ xs.zip (offsets encode file.length xs)) :
    Holds (file ++ unlines encode xs) y.2 (encode y.1) := by
  induction xs generalizing file with
  | nil => cases h
  | cons x xs ih =>
    rw [offsets, zip_cons_cons] at h
    rcases mem_cons.mp h with rfl | hy
    · exact ⟨file, unlines encode xs, by simp, rfl⟩
    · -- the rest is written after the line of `x`
      have hlen : (file ++ encode x ++ [lf]).length = file.length + (encode x).length + 1 := by
        simp only [length_append, length_cons, length_nil]
      rw [← hlen] at hy
      have hrest := ih hy
      simpa using hrest

variable {encode}

lemma lines_unlines (hlf : ∀ x, lf ∉ encode x) (hcr : ∀ x, cr ∉ encode x) (xs : List α) :
    lines (unlines encode xs) = xs.map encode := by
  induction xs with
  | nil => rfl
  | cons x xs ih =>
    have hclean : Clean (encode x ++ [lf]) := .inr (by simp)
    have hsplit : unlines encode (x :: xs) = (encode x ++ [lf]) ++ unlines encode xs := by simp
    rw [hsplit, lines_append hclean, lines_terminated (hlf x) (hcr x), ih]
    rfl

end Records

/-- The line that a reader placed at `off` gets. -/
def lineAt (file : List UInt8) (off : ℕ) : Option (List UInt8) :=
  if file.drop off = [] then none else some ((file.drop off).takeWhile (· != lf))

lemma lineAt_of_holds {file line : List UInt8} {off : ℕ} (hlf : lf ∉ line)
    (h : Holds file off line) : lineAt file off = some line := by
  obtain ⟨before, after, rfl, rfl⟩ := h
  have hdrop : (before ++ line ++ lf :: after).drop before.length = line ++ lf :: after := by
    rw [append_assoc, drop_left]
  have hall : ∀ b ∈ line, (b != lf) = true := fun b hb => by
    simpa using fun heq : b = lf => hlf (heq ▸ hb)
  rw [lineAt, hdrop, if_neg (by simp), takeWhile_append_of_pos hall]
  simp

end Lines
