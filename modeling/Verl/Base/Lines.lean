import Verl.Base.Strings

/-! Reading one value from each line of a text. Blanks at the ends of a line or of the text, and
lines that hold nothing, do not change what is read. -/
namespace Verl

section Trim

variable {α : Type u} {p : α → Bool}

theorem trim_cons_of_pos {c : α} (pos : p c = true) (s : List α) : trim p (c :: s) = trim p s := by
  rw [trim, List.dropWhile_cons_of_pos pos, trim]

theorem trim_concat_of_pos {c : α} (pos : p c = true) (s : List α) :
    trim p (s ++ [c]) = trim p s := by
  rw [trim, List.dropWhile_append, trim]
  split
  · rename_i empty
    rw [List.isEmpty_iff.mp empty, List.dropWhile_cons_of_pos pos]
    rfl
  · exact List.rdropWhile_concat_pos p _ c pos

theorem dropWhile_rdropWhile {s : List α} (solid : s.dropWhile p = s) :
    (s.rdropWhile p).dropWhile p = s.rdropWhile p := by
  cases s with
  | nil => rfl
  | cons x s =>
    have neg : ¬p x = true := by
      intro pos
      rw [List.dropWhile_cons_of_pos pos] at solid
      have short := congrArg List.length solid
      have bound := (List.dropWhile_suffix p (l := s)).length_le
      simp only [List.length_cons] at short
      omega
    obtain ⟨rest, same⟩ := List.rdropWhile_prefix p (x :: s)
    cases kept : (x :: s).rdropWhile p with
    | nil => rfl
    | cons y t =>
      rw [kept] at same
      obtain ⟨rfl, -⟩ := List.cons.inj same
      exact List.dropWhile_cons_of_neg neg

theorem trim_trim (s : List α) : trim p (trim p s) = trim p s := by
  rw [trim, trim, dropWhile_rdropWhile (List.dropWhile_idempotent p s), List.rdropWhile_idempotent]

end Trim

section Values

variable {α : Type u} {β : Type v} (blank : α → Bool) (read : List α → Option β)

/-- The values on the lines, each line without blanks at its ends. -/
def lineValues (lines : List (List α)) : List β :=
  lines.filterMap (fun line => read (trim blank line))

variable {blank read}

theorem lineValues_cons (line : List α) (lines : List (List α)) :
    lineValues blank read (line :: lines) = (read (trim blank line)).toList ++
      lineValues blank read lines := by
  rw [lineValues, List.filterMap_cons, lineValues]
  cases read (trim blank line) <;> rfl

theorem lineValues_nil_cons (none : read [] = .none) (lines : List (List α)) :
    lineValues blank read ([] :: lines) = lineValues blank read lines := by
  have nothing : read (trim blank []) = .none := none
  rw [lineValues_cons, nothing, Option.toList_none, List.nil_append]

theorem lineValues_append (ls ms : List (List α)) :
    lineValues blank read (ls ++ ms) = lineValues blank read ls ++ lineValues blank read ms :=
  List.filterMap_append

theorem lineValues_map_trim (lines : List (List α)) :
    lineValues blank read (lines.map (trim blank)) = lineValues blank read lines := by
  rw [lineValues, List.filterMap_map, lineValues]
  congr 1
  funext line
  exact congrArg read (trim_trim line)

theorem lineValues_filter (none : read [] = .none) (lines : List (List α)) :
    lineValues blank read (lines.filter (fun line => !line.isEmpty)) =
      lineValues blank read lines := by
  induction lines with
  | nil => rfl
  | cons line lines ih =>
    cases line with
    | nil => rw [List.filter_cons_of_neg (by simp), ih, lineValues_nil_cons none]
    | cons c line => rw [List.filter_cons_of_pos (by simp), lineValues_cons, ih, lineValues_cons]

variable [DecidableEq α] (blank read) (sep : α)

def textValues (s : List α) : List β := lineValues blank read (s.splitOn sep)

variable {blank read sep}

theorem textValues_append_sep (a b : List α) :
    textValues blank read sep (a ++ sep :: b) = textValues blank read sep a ++
      textValues blank read sep b := by
  rw [textValues, List.splitOn_append_cons_self, lineValues_append]
  rfl

theorem textValues_line {line : List α} (whole : sep ∉ line) :
    textValues blank read sep line = lineValues blank read [line] := by
  rw [textValues, List.splitOn_eq_singleton whole]

theorem textValues_intercalate (none : read [] = .none) {lines : List (List α)}
    (whole : ∀ line ∈ lines, sep ∉ line) :
    textValues blank read sep ([sep].intercalate lines) = lineValues blank read lines := by
  cases lines with
  | nil => exact lineValues_nil_cons none []
  | cons line lines =>
    rw [textValues, List.splitOn_intercalate sep whole (List.cons_ne_nil line lines)]

variable (none : read [] = .none)
include none

theorem textValues_cons_blank {c : α} (pos : blank c = true) (s : List α) :
    textValues blank read sep (c :: s) = textValues blank read sep s := by
  rw [textValues, List.splitOn_cons_eq_if_modifyHead]
  split
  · exact lineValues_nil_cons none _
  · obtain ⟨line, lines, parts⟩ := List.exists_cons_of_ne_nil (List.splitOn_ne_nil sep s)
    rw [textValues, parts, List.modifyHead_cons, lineValues_cons, trim_cons_of_pos pos,
      lineValues_cons]

theorem textValues_concat_blank {c : α} (pos : blank c = true) (s : List α) :
    textValues blank read sep (s ++ [c]) = textValues blank read sep s := by
  by_cases newline : c = sep
  · subst newline
    have empty : textValues blank read c [] = [] := lineValues_nil_cons none []
    rw [textValues_append_sep, empty, List.append_nil]
  · have last : ∀ line, sep ∉ line →
        textValues blank read sep (line ++ [c]) = textValues blank read sep line := by
      intro line whole
      have stillWhole : sep ∉ line ++ [c] := by simpa [whole] using Ne.symm newline
      rw [textValues_line stillWhole, textValues_line whole, lineValues_cons,
        trim_concat_of_pos pos, lineValues_cons]
    by_cases several : sep ∈ s
    · obtain ⟨line, front, back, whole⟩ := List.eq_append_cons_of_mem (List.mem_reverse.mpr several)
      have same : s = front.reverse ++ sep :: line.reverse := by
        rw [← List.reverse_reverse s, back]
        simp
      rw [same, List.append_assoc, List.cons_append, textValues_append_sep, textValues_append_sep,
        last line.reverse (by simpa using whole)]
    · exact last s several

theorem textValues_trim (s : List α) :
    textValues blank read sep (trim blank s) = textValues blank read sep s := by
  have left : textValues blank read sep (s.dropWhile blank) = textValues blank read sep s := by
    induction s with
    | nil => rfl
    | cons c s ih =>
      cases pos : blank c with
      | false => rw [List.dropWhile_cons_of_neg (by simp [pos])]
      | true => rw [List.dropWhile_cons_of_pos pos, ih, textValues_cons_blank none pos]
  rw [trim, ← left]
  generalize s.dropWhile blank = t
  induction t using List.reverseRecOn with
  | nil => rfl
  | append_singleton t c ih =>
    cases pos : blank c with
    | false => rw [List.rdropWhile_concat_neg blank t c (by simp [pos])]
    | true => rw [List.rdropWhile_concat_pos blank t c pos, ih, textValues_concat_blank none pos]

end Values

namespace Text

def isLineBreak (c : Char) : Bool :=
  let n := c.toNat
  (10 ≤ n && n ≤ 13) || (28 ≤ n && n ≤ 30) || n == 0x85 || n == 0x2028 || n == 0x2029

def splitlines : Text → List Text
  | [] => []
  | '\r' :: '\n' :: s => [] :: splitlines s
  | c :: s =>
    if isLineBreak c then [] :: splitlines s
    else
      match splitlines s with
      | [] => [[c]]
      | line :: lines => (c :: line) :: lines

theorem newline_notMem_splitlines (s : Text) : ∀ line ∈ splitlines s, '\n' ∉ line := by
  fun_induction splitlines s with
  | case1 => simp
  | case2 s ih => simpa using ih
  | case3 c s _ stop ih => simpa using ih
  | case4 c s _ inner none ih =>
    have other : '\n' ≠ c := by
      rintro rfl
      exact inner (by decide)
    simp [other]
  | case5 c s _ inner line lines parts ih =>
    have other : '\n' ≠ c := by
      rintro rfl
      exact inner (by decide)
    rw [parts] at ih
    simpa [other] using ih

end Text

end Verl
