import CryptoHft.Infra.Lookup

/-!
# What any key finds

A key is split at its dots, empty segments included. The loop of `getNode` ends where it should only at an empty segment:
so a key finds the node at the path of the segments before its first empty one, and without an empty one it finds
nothing (`getNode_eq`).
-/

namespace CryptoHft

open CharStream

namespace ConfigManager

/-- The pieces of the key between its dots. -/
def segments (key : String) : List String := (key.toList.splitOn '.').map String.ofList

/-- The node that the segments lead to, where the first empty one ends the path. -/
def found (node : Yaml) (segs : List String) : Yaml :=
  if "" ∈ segs then pathNode node (segs.takeWhile (· ≠ "")) else .null

variable {seg : String} {segs : List String}

theorem found_empty (node : Yaml) (segs : List String) : found node ("" :: segs) = node := by
  rw [found, if_pos List.mem_cons_self]
  rfl

theorem found_cons (hseg : seg ≠ "") (node : Yaml) (segs : List String) :
    found node (seg :: segs) = (node.lookup seg).elim .null fun child => found child segs := by
  have hmem : "" ∈ seg :: segs ↔ "" ∈ segs := by simp [Ne.symm hseg]
  have htake : (seg :: segs).takeWhile (· ≠ "") = seg :: segs.takeWhile (· ≠ "") :=
    List.takeWhile_cons_of_pos (by simpa using hseg)
  unfold found
  rw [htake]
  by_cases h : "" ∈ segs
  · rw [if_pos (hmem.2 h), pathNode, Yaml.nodeAt]
    simp only [if_pos h]
    cases node.lookup seg <;> rfl
  · rw [if_neg (mt hmem.1 h)]
    simp only [if_neg h]
    cases node.lookup seg <;> rfl

/-- The loop on the characters that are left, from any node. -/
theorem getNodeLoop_eq (chars : List Char) (token : String) (node : Yaml) :
    getNodeLoop ⟨chars, true⟩ token node = found node ((chars.splitOn '.').map String.ofList) := by
  by_cases hdot : '.' ∈ chars
  · obtain ⟨line, rest, rfl, hline⟩ := List.eq_append_cons_of_mem hdot
    rw [List.splitOn_append_cons_self_of_not_mem hline, List.map_cons]
    have hchars : '.' ∉ (String.ofList line).toList := by rwa [String.toList_ofList]
    have hnext := getline_delim hchars rest token
    rw [String.toList_ofList] at hnext
    by_cases hempty : String.ofList line = ""
    · rw [hempty] at hnext
      rw [hempty, found_empty]
      exact getNodeLoop_stop hnext
    · rw [found_cons hempty]
      cases hl : node.lookup (String.ofList line) with
      | none => exact getNodeLoop_missing hnext hempty hl
      | some child =>
        rw [getNodeLoop_child hnext hempty hl]
        exact getNodeLoop_eq rest _ child
  · -- the last piece: found only if it is empty
    rw [List.splitOn_eq_singleton hdot, List.map_singleton]
    have hchars : '.' ∉ (String.ofList chars).toList := by rwa [String.toList_ofList]
    by_cases hempty : String.ofList chars = ""
    · have hnext := getline_end hchars token
      rw [String.toList_ofList, hempty] at hnext
      rw [hempty, found_empty]
      exact getNodeLoop_stop hnext
    · have hlast := getNodeLoop_last ⟨hempty, hchars⟩ token node
      rw [IStream.ofString, String.toList_ofList] at hlast
      rw [found_cons hempty, hlast]
      cases node.lookup (String.ofList chars) <;> rfl
termination_by chars.length

theorem not_mem_of_mem_splitOn (chars : List Char) : ∀ piece ∈ chars.splitOn '.', '.' ∉ piece := by
  intro piece hp
  by_cases hdot : '.' ∈ chars
  · obtain ⟨line, rest, rfl, hline⟩ := List.eq_append_cons_of_mem hdot
    rw [List.splitOn_append_cons_self_of_not_mem hline] at hp
    rcases List.mem_cons.1 hp with rfl | hp
    · exact hline
    · exact not_mem_of_mem_splitOn rest piece hp
  · rw [List.splitOn_eq_singleton hdot] at hp
    rwa [List.mem_singleton.1 hp]
termination_by chars.length

theorem segment_of_mem {key : String} (h : seg ∈ segments key) (hne : seg ≠ "") : Segment seg := by
  obtain ⟨piece, hp, rfl⟩ := List.mem_map.1 h
  refine ⟨hne, ?_⟩
  rw [String.toList_ofList]
  exact not_mem_of_mem_splitOn _ piece hp

/-- **What any key finds**: the node at the path of the segments before its first empty one, or a null. So the nodes
that keys find are those at the paths of the tree, and nothing else but a null. -/
theorem getNode_eq (cm : ConfigManager) : (∀ key, cm.getNode key = found cm.config (segments key)) ∧
    ∀ node, (∃ key, cm.getNode key = node) ↔
      node = .null ∨ ∃ segs, (∀ seg ∈ segs, Segment seg) ∧ cm.config.nodeAt segs = some node := by
  have hfound : ∀ key, cm.getNode key = found cm.config (segments key) :=
    fun key => getNodeLoop_eq key.toList "" cm.config
  refine ⟨hfound, fun node => ⟨?_, ?_⟩⟩
  · rintro ⟨key, rfl⟩
    rw [hfound, found]
    split
    · cases hn : cm.config.nodeAt ((segments key).takeWhile (· ≠ "")) with
      | none => exact .inl (by rw [pathNode, hn]; rfl)
      | some node =>
        refine .inr ⟨(segments key).takeWhile (· ≠ ""), fun seg hs => ?_, by rw [pathNode, hn]; rfl⟩
        exact segment_of_mem ((List.takeWhile_sublist _).subset hs) (by simpa using List.mem_takeWhile_imp hs)
    · exact .inl rfl
  · rintro (rfl | ⟨segs, hsegs, hn⟩)
    · exact ⟨".".intercalate ["x"], getNode_segments cm (by simp) (by decide)⟩
    · by_cases hne : segs = []
      · subst hne
        cases hn
        exact ⟨"", getNode_empty cm⟩
      · exact ⟨_, (getNode_trailing_dot cm hne hsegs).trans (by rw [pathNode, hn]; rfl)⟩

/-- Two dots in a row end the path. -/
example : exampleConfig.getNode "trading.strategy..risk" = .scalar "momentum" :=
  getNodeLoop_eq "trading.strategy..risk".toList "" exampleConfig.config

end ConfigManager

end CryptoHft
