import Mathlib.Data.List.TakeDrop
import Mathlib.Data.List.TakeWhile
import Mathlib.Tactic.Common

/-!
# Reading a stream of characters up to a delimiter

`getline` moves the characters up to the next delimiter, or to the end of the stream, into a string, and takes the
delimiter off the stream. It empties the string first, but only while the stream is good; the end of the stream, once
met, leaves the stream not good, and the string then keeps what it held.

* A delimiter ends a line and leaves the stream good (`getline_delim`), the end of the stream does not (`getline_end`).
* On a stream that is not good nothing changes (`getline_stuck`).
* Called until it fails, it goes through the pieces between the delimiters, but for an empty last one
  (`readLines_eq_splitOn`).
-/

namespace CharStream

structure IStream where
  rest : List Char
  /-- No error bit is set, the one for the end of the stream included. -/
  good : Bool

def IStream.ofString (s : String) : IStream := ⟨s.toList, true⟩

/-- The stream and the string after one call. -/
def getline (delim : Char) (s : IStream) (token : String) : IStream × String :=
  if s.good then
    match s.rest.span (· ≠ delim) with
    | (line, []) => (⟨[], false⟩, String.ofList line)
    | (line, _ :: rest) => (⟨rest, true⟩, String.ofList line)
  else (s, token)

variable {delim : Char} {line : String}

theorem span_delim (h : delim ∉ line.toList) (rest : List Char) :
    (line.toList ++ delim :: rest).span (· ≠ delim) = (line.toList, delim :: rest) := by
  have hline : ∀ c ∈ line.toList, decide (c ≠ delim) = true := fun c hc => decide_eq_true fun he => h (he ▸ hc)
  rw [List.span_eq_takeWhile_dropWhile, List.takeWhile_append_of_pos hline, List.dropWhile_append_of_pos hline]
  simp

theorem span_end (h : delim ∉ line.toList) : line.toList.span (· ≠ delim) = (line.toList, []) := by
  have hline : ∀ c ∈ line.toList, decide (c ≠ delim) = true := fun c hc => decide_eq_true fun he => h (he ▸ hc)
  rw [List.span_eq_takeWhile_dropWhile, List.takeWhile_eq_self_iff.2 hline, List.dropWhile_eq_nil_iff.2 hline]

/-- A line that a delimiter ends. -/
theorem getline_delim (h : delim ∉ line.toList) (rest : List Char) (token : String) :
    getline delim ⟨line.toList ++ delim :: rest, true⟩ token = (⟨rest, true⟩, line) := by
  rw [getline, if_pos rfl, span_delim h]
  simp only [String.ofList_toList]

/-- A line that the end of the stream ends. -/
theorem getline_end (h : delim ∉ line.toList) (token : String) :
    getline delim ⟨line.toList, true⟩ token = (⟨[], false⟩, line) := by
  rw [getline, if_pos rfl, span_end h]
  simp only [String.ofList_toList]

/-- After the end the string keeps what it held. -/
theorem getline_stuck (rest : List Char) (token : String) : getline delim ⟨rest, false⟩ token = (⟨rest, false⟩, token) :=
  rfl

/-! ## Line by line -/

/-- Whether a call takes something off the stream; if not, it fails. -/
def IStream.extracts (s : IStream) : Bool := s.good && !s.rest.isEmpty

theorem length_getline_lt {s : IStream} (h : s.extracts = true) (token : String) :
    (getline delim s token).1.rest.length < s.rest.length := by
  obtain ⟨rest, good⟩ := s
  simp only [IStream.extracts, Bool.and_eq_true, Bool.not_eq_true', List.isEmpty_eq_false_iff] at h
  obtain ⟨rfl, hne⟩ := h
  have hspan := List.span_eq_takeWhile_dropWhile (p := (· ≠ delim)) (l := rest)
  have hlen := (List.dropWhile_sublist (· ≠ delim) (l := rest)).length_le
  rw [getline, if_pos rfl, hspan]
  cases hd : rest.dropWhile (· ≠ delim) with
  | nil => exact List.length_pos_iff.2 hne
  | cons c tail =>
    rw [hd, List.length_cons] at hlen
    exact hlen

/-- The lines that `while (getline(s, line))` goes through. -/
def readLines (delim : Char) (s : IStream) : List String :=
  if _h : s.extracts then
    let next := getline delim s ""
    next.2 :: readLines delim next.1
  else []
termination_by s.rest.length
decreasing_by exact length_getline_lt (by assumption) ""

theorem readLines_delim (h : delim ∉ line.toList) (rest : List Char) :
    readLines delim ⟨line.toList ++ delim :: rest, true⟩ = line :: readLines delim ⟨rest, true⟩ := by
  have hext : IStream.extracts ⟨line.toList ++ delim :: rest, true⟩ = true := by simp [IStream.extracts]
  rw [readLines, dif_pos hext, getline_delim h]

theorem readLines_end (h : delim ∉ line.toList) :
    readLines delim ⟨line.toList, true⟩ = if line = "" then [] else [line] := by
  rw [readLines]
  split
  · next hext =>
    have hne : line ≠ "" := by
      rintro rfl
      cases hext
    have hstop : readLines delim ⟨[], false⟩ = [] := by
      rw [readLines]
      rfl
    rw [if_neg hne, getline_end h]
    exact congrArg (line :: ·) hstop
  · next hext =>
    have hnil : line = "" := by simpa [IStream.extracts] using hext
    rw [if_pos hnil]

/-- **The lines are the pieces** between the delimiters; an empty piece at the end is no line. -/
theorem readLines_eq_splitOn (delim : Char) (chars : List Char) :
    ∃ last, (last = [] ∨ last = [""]) ∧
      (chars.splitOn delim).map String.ofList = readLines delim ⟨chars, true⟩ ++ last := by
  by_cases hmem : delim ∈ chars
  · obtain ⟨line, rest, rfl, hline⟩ := List.eq_append_cons_of_mem hmem
    have hchars : delim ∉ (String.ofList line).toList := by rwa [String.toList_ofList]
    have hread := readLines_delim hchars rest
    rw [String.toList_ofList] at hread
    obtain ⟨last, hlast, hsplit⟩ := readLines_eq_splitOn delim rest
    refine ⟨last, hlast, ?_⟩
    rw [List.splitOn_append_cons_self_of_not_mem hline, List.map_cons, hsplit, hread, List.cons_append]
  · have hchars : delim ∉ (String.ofList chars).toList := by rwa [String.toList_ofList]
    have hread := readLines_end hchars
    rw [String.toList_ofList] at hread
    rw [List.splitOn_eq_singleton hmem, hread]
    split
    · next hnil => exact ⟨[""], .inr rfl, by rw [List.map_singleton, hnil]; rfl⟩
    · exact ⟨[], .inl rfl, rfl⟩
termination_by chars.length

end CharStream
