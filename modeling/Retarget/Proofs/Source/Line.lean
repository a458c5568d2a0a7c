import Mathlib.Data.List.TakeWhile
import Mathlib.Data.String.Basic
import Retarget.Source.File

/-!
# Lines of a source file

* `SourceFile.slice?_append`: a cut between characters succeeds.
* `SourceFile.cut?_eq`: cut at the recorded offsets, a text falls into the pieces between its newlines.
* `SourceFile.line_exact`: which lines there are, and what they hold.
-/

namespace Retarget.SourceFile

open List
open String (utf8Len utf8Len_cons)

/-! ## Cuts -/

theorem dropBytes?_append (text more : List Char) : dropBytes? (utf8Len text) (text ++ more) = some more := by
  induction text with
  | nil => simp [dropBytes?]
  | cons c text ih =>
    obtain ⟨n, hn⟩ := Nat.exists_eq_add_one.2 c.utf8Size_pos
    rw [utf8Len_cons, hn, ← Nat.add_assoc, cons_append, dropBytes?, hn, if_pos (by omega), Nat.add_assoc,
      Nat.add_sub_cancel, ih]

theorem takeBytes?_append (text more : List Char) : takeBytes? (utf8Len text) (text ++ more) = some text := by
  induction text with
  | nil => simp [takeBytes?]
  | cons c text ih =>
    obtain ⟨n, hn⟩ := Nat.exists_eq_add_one.2 c.utf8Size_pos
    rw [utf8Len_cons, hn, ← Nat.add_assoc, cons_append, takeBytes?, hn, if_pos (by omega), Nat.add_assoc,
      Nat.add_sub_cancel, ih, Option.map_some]

theorem slice?_append (before text after : List Char) :
    slice? (utf8Len before) (utf8Len before + utf8Len text) (before ++ (text ++ after)) = some text := by
  rw [slice?, if_pos (Nat.le_add_right _ _), dropBytes?_append, Option.bind_some, Nat.add_sub_cancel_left,
    takeBytes?_append]

/-! ## Starts of lines -/

theorem startsAfter_append {line : List Char} (h : '\n' ∉ line) (offset : Nat) (more : List Char) :
    startsAfter offset (line ++ more) = startsAfter (offset + utf8Len line) more := by
  induction line generalizing offset with
  | nil => rfl
  | cons c line ih =>
    obtain ⟨hc, hline⟩ := not_or.1 (mt mem_cons.2 h)
    rw [cons_append, startsAfter, if_neg (by simpa using Ne.symm hc), ih hline, utf8Len_cons, Nat.add_assoc,
      Nat.add_comm c.utf8Size]

/-- What is cut out for a line of a text in which the lines start at the offsets `starts`. -/
def cut? (starts : List Nat) (text : List Char) (n : Nat) : Option (Option (List Char)) :=
  starts[n]?.map fun start => slice? start (starts[n + 1]?.elim (utf8Len text) (· - 1)) text

/-- **The recorded offsets cut a text at its newlines.** What is `before` the text has been cut off already. -/
theorem cut?_eq (before text : List Char) (n : Nat) :
    cut? (utf8Len before :: startsAfter (utf8Len before) text) (before ++ text) n =
      (text.splitOn '\n')[n]?.map some := by
  by_cases h : '\n' ∈ text
  · obtain ⟨line, rest, rfl, hline⟩ := eq_append_cons_of_mem h
    rw [startsAfter_append hline, startsAfter, splitOn_append_cons_self_of_not_mem hline]
    have hsize : '\n'.utf8Size = 1 := rfl
    cases n with
    | zero => simpa [cut?, hsize] using slice?_append before line ('\n' :: rest)
    | succ n => simpa [cut?, Nat.add_assoc] using cut?_eq (before ++ line ++ ['\n']) rest n
  · have hstarts : startsAfter (utf8Len before) text = [] := by
      rw [← append_nil text, startsAfter_append h, startsAfter]
    rw [hstarts, splitOn_eq_singleton h]
    cases n with
    | zero => simpa [cut?] using slice?_append before text []
    | succ n => rfl

theorem length_splitOn (text : List Char) : (text.splitOn '\n').length = text.count '\n' + 1 := by
  induction text with
  | nil => rfl
  | cons c text ih =>
    rw [splitOn_cons_eq_if_modifyHead, count_cons]
    split <;> simp [ih]

/-! ## Lines -/

theorem dropReturns_eq_iff {piece text : List Char} :
    dropReturns piece = text ↔ (∃ n, piece = text ++ replicate n '\r') ∧ text.getLast? ≠ some '\r' := by
  constructor
  · rintro rfl
    refine ⟨⟨(piece.reverse.takeWhile (· == '\r')).length, ?_⟩, fun h => ?_⟩
    · have hreturns : piece.reverse.takeWhile (· == '\r') = replicate _ '\r' :=
        eq_replicate_iff.2 ⟨rfl, fun c hc => by simpa using mem_takeWhile_imp hc⟩
      rw [← reverse_inj, reverse_append, reverse_replicate, ← hreturns, dropReturns, reverse_reverse,
        takeWhile_append_dropWhile]
    · rw [dropReturns, getLast?_reverse] at h
      have hnot := head?_dropWhile_not (· == '\r') piece.reverse
      simp [h] at hnot
  · rintro ⟨⟨n, rfl⟩, hlast⟩
    rw [dropReturns, reverse_append, dropWhile_append_of_pos (by simp)]
    cases htext : text.reverse with
    | nil => simpa using htext.symm
    | cons c more =>
      rw [← head?_reverse, htext] at hlast
      rw [dropWhile_cons_of_neg (by simpa using hlast), ← htext, reverse_reverse]

theorem cut?_lineStarts (file : SourceFile) (n : Nat) :
    cut? file.lineStarts file.source.toList n = (file.source.toList.splitOn '\n')[n]?.map some :=
  cut?_eq [] file.source.toList n

theorem line_succ (file : SourceFile) (n : Nat) :
    file.line (n + 1) = (file.source.toList.splitOn '\n')[n]?.map fun piece => String.ofList (dropReturns piece) := by
  have hcut := file.cut?_lineStarts n
  rw [line]
  cases hstart : file.lineStarts[n]? with
  | none =>
    rw [cut?, hstart] at hcut
    rw [Option.map_eq_none_iff.1 hcut.symm]
    rfl
  | some start =>
    rw [cut?, hstart] at hcut
    obtain ⟨piece, hpiece, hslice⟩ := Option.map_eq_some_iff.1 hcut.symm
    rw [hpiece]
    cases hnext : file.lineStarts[n + 1]? with
    | none =>
      rw [hnext, Option.elim_none, String.utf8Len_toList] at hslice
      simp [← hslice]
    | some next =>
      rw [hnext, Option.elim_some] at hslice
      simp [← hslice]

/-- **A file has one line more than newlines**, and a line is the piece between two newlines without the carriage
returns at its end. Every cut of the text for a line succeeds. -/
theorem line_exact (file : SourceFile) (n : Nat) :
    ((file.line n).isSome ↔ 1 ≤ n ∧ n ≤ file.source.toList.count '\n' + 1) ∧
    (∀ s, file.line n = some s ↔ ∃ piece, n ≠ 0 ∧ (file.source.toList.splitOn '\n')[n - 1]? = some piece ∧
      (∃ returns, piece = s.toList ++ replicate returns '\r') ∧ s.toList.getLast? ≠ some '\r') ∧
    file.lineStarts[n]?.map (fun start => slice? start
      (file.lineStarts[n + 1]?.elim file.source.utf8ByteSize (· - 1)) file.source.toList) =
        (file.source.toList.splitOn '\n')[n]?.map some := by
  refine ⟨?_, fun s => ?_, by rw [← String.utf8Len_toList]; exact file.cut?_lineStarts n⟩
  · cases n with
    | zero => simp [line]
    | succ n =>
      rw [line_succ, Option.isSome_map, isSome_getElem?, length_splitOn]
      omega
  · cases n with
    | zero => simp [line]
    | succ n =>
      simp only [line_succ, Option.map_eq_some_iff, ← dropReturns_eq_iff, ← String.toList_inj, String.toList_ofList,
        Nat.add_sub_cancel, ne_eq, Nat.add_eq_zero_iff]
      simp

end Retarget.SourceFile
