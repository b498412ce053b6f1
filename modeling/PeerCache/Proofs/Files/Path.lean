import Mathlib
import PeerCache.Files.Path

/-!
# Where a path leads

A path with a slash in the middle has the segments of its two sides (`segments_append`), and putting a relative
path behind another one puts its segments behind those of the other (`join_cases`).  So the parts of the whole
are the parts of the one and then of the other:

    parts (join base path) = parts base ++ names, for a path of names alone          (parts_join)

In a tree of files, names lead down and nothing but names does (`Under`): behind a directory, a path without `..`
leads to what stands under its names there (`under_of_walk`), whatever has led to the directory (`walk_append`).
-/

namespace PeerCache

namespace FileTree

variable {a b path name s : String} {segs xs ys : List String} {parents : List FileTree} {t here : FileTree}

/-! ## Segments -/

theorem segments_append (a b : String) : segments (a ++ "/" ++ b) = segments a ++ segments b := by
  have hchars : (a ++ "/" ++ b).toList = a.toList ++ '/' :: b.toList := by
    rw [String.toList_append, String.toList_append, List.append_assoc]
    rfl
  unfold segments
  rw [hchars, List.splitOn_append_cons_self, List.map_append]

theorem segments_ne_nil (path : String) : segments path ≠ [] := by
  unfold segments
  rw [Ne, List.map_eq_nil_iff]
  exact List.splitOn_ne_nil _ _

/-- The first segment goes up to the first slash. -/
theorem head?_segments (path : String) :
    (segments path).head? = some (String.ofList (path.toList.takeWhile (· ≠ '/'))) := by
  unfold segments
  rw [List.head?_map]
  induction path.toList with
  | nil => rfl
  | cons c cs ih =>
    rw [List.splitOn_cons_eq_if_modifyHead]
    by_cases hc : c = '/'
    · simp [hc]
    · obtain ⟨first, rest, hsplit⟩ := List.exists_cons_of_ne_nil (List.splitOn_ne_nil '/' cs)
      rw [hsplit] at ih ⊢
      have hfirst : first = cs.takeWhile (· ≠ '/') := String.ofList_injective (Option.some.inj ih)
      simp [hc, hfirst]

theorem slash_not_mem (h : s ∈ segments path) : '/' ∉ s.toList := by
  have hpieces (cs : List Char) : ∀ piece ∈ cs.splitOn '/', '/' ∉ piece := by
    induction cs with
    | nil => simp
    | cons c cs ih =>
      rw [List.splitOn_cons_eq_if_modifyHead]
      by_cases hc : c = '/'
      · simpa [hc] using ih
      · obtain ⟨first, rest, hsplit⟩ := List.exists_cons_of_ne_nil (List.splitOn_ne_nil '/' cs)
        have hslash : ¬ '/' = c := fun h => hc h.symm
        rw [hsplit] at ih ⊢
        simpa [hc, hslash] using ih
  obtain ⟨piece, hpiece, rfl⟩ := List.mem_map.mp h
  rw [String.toList_ofList]
  exact hpieces path.toList piece hpiece

/-! ## Walking down -/

/-- What stands under some names, one below the other. -/
inductive Under : FileTree → List String → FileTree → Prop
  | here (t : FileTree) : Under t [] t
  | into {entries : List (String × FileTree)} {name : String} {child : FileTree} {names : List String}
      {t : FileTree} (entry : entries.lookup name = some child) (rest : Under child names t) :
      Under (folder entries) (name :: names) t

/-- Segments that are not merely written. -/
def names (segs : List String) : List String := segs.filter fun s => s != "" && s != "."

/-- Without `..` it does not matter how a directory was reached. -/
theorem walk_parents (h : ".." ∉ segs) : walk parents here segs = walk [] here segs := by
  induction segs generalizing parents here with
  | nil => rfl
  | cons name rest ih =>
    have hrest := List.not_mem_of_not_mem_cons h
    have hup : (name == "..") = false := beq_eq_false_iff_ne.mpr (Ne.symm (List.ne_of_not_mem_cons h))
    cases here with
    | file content => rfl
    | folder entries =>
      simp only [walk, hup, Bool.false_eq_true, if_false]
      split_ifs
      · exact ih hrest
      · rfl
      · cases entries.lookup name with
        | none => rfl
        | some child => exact (ih hrest).trans (ih hrest).symm

theorem walk_append (h : ".." ∉ ys) :
    walk parents here (xs ++ ys) = walk parents here xs >>= fun d => walk [] d ys := by
  induction xs generalizing parents here with
  | nil => exact walk_parents h
  | cons name rest ih =>
    cases here with
    | file content => rfl
    | folder entries =>
      simp only [List.cons_append, walk]
      split_ifs
      · exact ih
      · cases parents with
        | nil => exact ih
        | cons p ps => exact ih
      · rfl
      · cases entries.lookup name with
        | none => rfl
        | some child => exact ih

/-- Without `..` a walk leads to what stands under the names on its way. -/
theorem under_of_walk (hup : ".." ∉ segs) (h : walk parents here segs = .ok t) : Under here (names segs) t := by
  induction segs generalizing parents here with
  | nil =>
    cases h
    exact .here _
  | cons name rest ih =>
    have hrest := List.not_mem_of_not_mem_cons hup
    have hnot : (name == "..") = false := beq_eq_false_iff_ne.mpr (Ne.symm (List.ne_of_not_mem_cons hup))
    cases here with
    | file content => cases h
    | folder entries =>
      simp only [walk, hnot, Bool.false_eq_true, if_false] at h
      split_ifs at h with hwritten
      · have hskip : names (name :: rest) = names rest := by
          refine List.filter_cons_of_neg ?_
          simpa [or_iff_not_imp_left] using hwritten
        rw [hskip]
        exact ih hrest h
      · have hkeep : names (name :: rest) = name :: names rest := by
          refine List.filter_cons_of_pos ?_
          simpa [not_or] using hwritten
        rw [hkeep]
        cases hentry : entries.lookup name with
        | none => rw [hentry] at h; cases h
        | some child =>
          rw [hentry] at h
          exact .into hentry (ih hrest h)

/-- Only a directory can be walked into. -/
theorem isFolder_of_walk (hne : segs ≠ []) (h : walk parents here segs = .ok t) : ∃ entries, here = folder entries := by
  cases here with
  | file content =>
    obtain ⟨name, rest, rfl⟩ := List.exists_cons_of_ne_nil hne
    cases h
  | folder entries => exact ⟨entries, rfl⟩

theorem walk_of_read {content : ByteArray} (h : t.read path = .ok content) :
    walk [] t (segments path) = .ok (file content) := by
  unfold read at h
  split_ifs at h
  cases hwalk : walk [] t (segments path) with
  | error fault => rw [hwalk] at h; cases h
  | ok u =>
    rw [hwalk] at h
    cases u with
    | file c => cases h; rfl
    | folder entries => cases h

end FileTree

namespace FilePath

open FileTree (segments names)

variable {base path s : String} {segs : List String}

/-- A name that a directory can have for what stands in it. -/
structure IsOrdinary (s : String) : Prop where
  ne_empty : s ≠ ""
  ne_here : s ≠ "."
  ne_up : s ≠ ".."
  no_slash : '/' ∉ s.toList

/-! ## Parts -/

theorem ofSegment?_name (hempty : s ≠ "") (hhere : s ≠ ".") (hup : s ≠ "..") :
    Part.ofSegment? s = some (.name s) := by
  unfold Part.ofSegment?
  split <;> simp_all

/-- Segments without `..` stand for their names. -/
theorem filterMap_ofSegment? (h : ".." ∉ segs) : segs.filterMap Part.ofSegment? = (names segs).map .name := by
  induction segs with
  | nil => rfl
  | cons s rest ih =>
    rw [List.filterMap_cons, ih (List.not_mem_of_not_mem_cons h)]
    by_cases hwritten : s = "" ∨ s = "."
    · rcases hwritten with rfl | rfl <;> rfl
    · obtain ⟨hempty, hhere⟩ := not_or.mp hwritten
      have hkeep : names (s :: rest) = s :: names rest := by
        unfold names
        rw [List.filter_cons_of_pos (by simp [hempty, hhere])]
      rw [ofSegment?_name hempty hhere (Ne.symm (List.ne_of_not_mem_cons h)), hkeep]
      rfl

/-- All parts of a path are names exactly if it neither begins in a special way nor goes up. -/
theorem all_isName_iff : (parts path).all Part.isName = true ↔ opening path = [] ∧ ".." ∉ segments path := by
  unfold parts
  rw [List.all_append, Bool.and_eq_true]
  refine and_congr ⟨fun h => ?_, fun h => by rw [h]; rfl⟩ ⟨fun h hup => ?_, fun h => ?_⟩
  · unfold opening at h ⊢
    split_ifs at h ⊢
    · cases h
    · cases h
    · rfl
  · have hpart : Part.up ∈ (segments path).filterMap Part.ofSegment? :=
      List.mem_filterMap.mpr ⟨"..", hup, rfl⟩
    cases List.all_eq_true.mp h _ hpart
  · rw [filterMap_ofSegment? h]
    simp [Part.isName]

theorem opening_eq_nil_iff :
    opening path = [] ↔ path.toList.head? ≠ some '/' ∧ (segments path).head? ≠ some "." := by
  unfold opening isAbsolute
  split_ifs <;> simp_all

/-! ## Joined paths -/

theorem join_empty (hpath : isAbsolute path = false) : join "" path = path := by
  unfold join
  rw [hpath]
  exact String.empty_append

/-- How a path is put behind another one that is not empty. -/
theorem join_cases (hpath : isAbsolute path = false) (hbase : base ≠ "") :
    ∃ before, before ≠ [] ∧ segments (join base path) = before ++ segments path ∧
      (segments base = before ∨ segments base = before ++ [""]) ∧
      isAbsolute (join base path) = isAbsolute base := by
  have hchars : base.toList ≠ [] := fun h => hbase (String.toList_eq_nil_iff.mp h)
  have habsolute (rest : String) : isAbsolute (base ++ rest) = isAbsolute base := by
    unfold isAbsolute
    rw [String.toList_append, List.head?_append_of_ne_nil _ hchars]
  unfold join
  rw [hpath]
  simp only [Bool.false_eq_true, if_false]
  by_cases hslash : base.toList.getLast? = some '/'
  · obtain ⟨init, hinit⟩ := List.getLast?_eq_some_iff.mp hslash
    have hsplit : base = String.ofList init ++ "/" := by
      rw [← String.toList_inj, String.toList_append, String.toList_ofList, hinit]
      rfl
    refine ⟨segments (String.ofList init), FileTree.segments_ne_nil _, ?_, .inr ?_, ?_⟩
    · rw [hslash, Option.all_some, beq_self_eq_true, if_pos rfl]
      conv_lhs => rw [hsplit]
      rw [FileTree.segments_append]
    · conv_lhs => rw [hsplit, ← String.append_empty (s := String.ofList init ++ "/")]
      rw [FileTree.segments_append]
      rfl
    · rw [hslash, Option.all_some, beq_self_eq_true, if_pos rfl, habsolute]
  · have hall : base.toList.getLast?.all (· == '/') = false := by
      cases hlast : base.toList.getLast? with
      | none => exact absurd (List.getLast?_eq_none_iff.mp hlast) hchars
      | some c =>
        rw [hlast] at hslash
        simpa using fun h : c = '/' => hslash (congrArg some h)
    refine ⟨segments base, FileTree.segments_ne_nil _, ?_, .inl rfl, ?_⟩
    · rw [hall]
      exact FileTree.segments_append base path
    · rw [hall, if_neg Bool.false_ne_true, String.append_assoc, habsolute]

/-- **A path behind another one** has the parts of that and then its own, if all of these are names. -/
theorem parts_join (hopening : opening path = []) (hup : ".." ∉ segments path) (base : String) :
    parts (join base path) = parts base ++ (names (segments path)).map .name := by
  have hrelative : isAbsolute path = false := by
    simpa [isAbsolute] using (opening_eq_nil_iff.mp hopening).1
  rw [← filterMap_ofSegment? hup]
  by_cases hbase : base = ""
  · subst hbase
    rw [join_empty hrelative, parts, hopening]
    rfl
  · obtain ⟨before, hne, hsegments, hbefore, habsolute⟩ := join_cases hrelative hbase
    have hfirst : (segments (join base path)).head? = (segments base).head? := by
      rw [hsegments, List.head?_append_of_ne_nil _ hne]
      rcases hbefore with hbefore | hbefore
      · rw [hbefore]
      · rw [hbefore, List.head?_append_of_ne_nil _ hne]
    have hsame : opening (join base path) = opening base := by
      unfold opening
      rw [habsolute, hfirst]
    have hparts : before.filterMap Part.ofSegment? = (segments base).filterMap Part.ofSegment? := by
      rcases hbefore with hbefore | hbefore
      · rw [hbefore]
      · rw [hbefore, List.filterMap_append]
        exact (List.append_nil _).symm
    unfold parts
    rw [hsame, hsegments, List.filterMap_append, hparts, List.append_assoc]

/-- **What stands at a path behind another one stands below it**, in whatever tree. -/
theorem under_of_read_join {t : FileTree} {content : ByteArray} (hopening : opening path = [])
    (hup : ".." ∉ segments path) (h : t.read (join base path) = .ok content) :
    ∃ d, t.walk [] (segments base) = .ok d ∧ d.Under (names (segments path)) (.file content) := by
  have hrelative : isAbsolute path = false := by
    simpa [isAbsolute] using (opening_eq_nil_iff.mp hopening).1
  have hwalk := FileTree.walk_of_read h
  -- a directory that is entered can also be asked for with a slash behind it
  have henter {d : FileTree} (hd : d.walk [] (segments path) = .ok (.file content)) : d.walk [] [""] = .ok d := by
    obtain ⟨entries, rfl⟩ := FileTree.isFolder_of_walk (FileTree.segments_ne_nil path) hd
    rfl
  by_cases hbase : base = ""
  · subst hbase
    rw [join_empty hrelative] at hwalk
    exact ⟨t, henter hwalk, FileTree.under_of_walk hup hwalk⟩
  · obtain ⟨before, -, hsegments, hbefore, -⟩ := join_cases hrelative hbase
    rw [hsegments, FileTree.walk_append hup] at hwalk
    cases hd : t.walk [] before with
    | error fault => rw [hd] at hwalk; cases hwalk
    | ok d =>
      rw [hd] at hwalk
      refine ⟨d, ?_, FileTree.under_of_walk hup hwalk⟩
      rcases hbefore with hbefore | hbefore
      · rw [hbefore, hd]
      · rw [hbefore, FileTree.walk_append (by decide), hd]
        exact henter hwalk

end FilePath

end PeerCache
