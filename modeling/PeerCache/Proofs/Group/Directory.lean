import Mathlib
import PeerCache.Group.Backfill
import PeerCache.Proofs.Files.Path

/-!
# Keys of a directory

A directory is asked for keys that come from anywhere, and serves the files below its root and nothing else.  A
key is accepted if it consists of names alone (`isInside_iff`), and there is one at least then (`names_ne_nil`); the
path of its file is the root and these names, and the file stands below the root, under these names.  For any
other key no file is read.

Main statement: `stays_below`.
-/

namespace PeerCache.Backfill

open FilePath (Part IsOrdinary)
open FileTree (segments names)

variable {root key : String}

/-- The keys that are accepted. -/
theorem isInside_iff : isInside key = true ↔
    key ≠ "" ∧ key.toList.head? ≠ some '/' ∧ ".." ∉ segments key ∧ (segments key).head? ≠ some "." := by
  unfold isInside
  rw [Bool.and_eq_true, bne_iff_ne, FilePath.all_isName_iff, FilePath.opening_eq_nil_iff]
  tauto

/-- An accepted key has a name, which is its first segment. -/
theorem names_ne_nil (h : isInside key = true) : names (segments key) ≠ [] := by
  obtain ⟨hkey, hslash, -, hhere⟩ := isInside_iff.mp h
  obtain ⟨c, cs, hchars⟩ := List.exists_cons_of_ne_nil (mt String.toList_eq_nil_iff.mp hkey)
  have hfirst : c ≠ '/' := fun heq => hslash (by rw [hchars, heq]; rfl)
  rw [FileTree.head?_segments, Ne, Option.some.injEq] at hhere
  have hmem := List.mem_of_mem_head? (FileTree.head?_segments key)
  refine List.ne_nil_of_mem (List.mem_filter.mpr ⟨hmem, ?_⟩)
  rw [Bool.and_eq_true, bne_iff_ne, bne_iff_ne]
  refine ⟨fun hempty => ?_, hhere⟩
  have hnil := congrArg String.toList hempty
  rw [String.toList_ofList, hchars, List.takeWhile_cons_of_pos (by simpa using hfirst)] at hnil
  cases hnil

theorem isOrdinary_of_mem (hup : ".." ∉ segments key) {s : String} (h : s ∈ names (segments key)) :
    IsOrdinary s := by
  obtain ⟨hmem, hnamed⟩ := List.mem_filter.mp h
  rw [Bool.and_eq_true, bne_iff_ne, bne_iff_ne] at hnamed
  exact ⟨hnamed.1, hnamed.2, fun heq => hup (heq ▸ hmem), FileTree.slash_not_mem hmem⟩

theorem pathFor?_eq_some_iff {path : String} :
    pathFor? root key = some path ↔ isInside key = true ∧ path = FilePath.join root key := by
  unfold pathFor?
  split
  · next h => simp [h, eq_comm]
  · next h => simp [h]

section

variable {m : Type → Type} [Monad m] {read : String → m (Except ReadFault ByteArray)}

/-- A key that is refused touches nothing. -/
theorem fetchBelow_of_refused (h : pathFor? root key = none) : fetchBelow read root key = pure .missing := by
  rw [fetchBelow, h]

/-- A key that is accepted reads one file. -/
theorem fetchBelow_of_path {path : String} (h : pathFor? root key = some path) :
    fetchBelow read root key = do return ofContent (← read path) := by
  rw [fetchBelow, h]

end

theorem read_of_fetch {files : FileTree} {v : ByteArray} {path : String} (hpath : pathFor? root key = some path)
    (h : (directory root).fetch files key = .value v) : files.read path = .ok v := by
  have hread : Id.run (fetchBelow (fun path => pure (files.read path)) root key) = .value v := h
  rw [fetchBelow_of_path hpath] at hread
  change ofContent (files.read path) = .value v at hread
  unfold ofContent at hread
  split at hread
  · next content hok =>
    cases hread
    exact hok
  · cases hread
  · cases hread

/-- **A directory serves what stands below its root, and refuses nothing else.**  A key has a path exactly if it
is not empty, has no slash in front and no segment `..`, and does not begin with the segment `.`.  This path has
the parts of the root and then names, at least one, that are ordinary names of files; it is the one file that is
read, and what the key is answered with is the content of the file that stands under these names in the directory
at the root.  A key without a path is missing, and nothing is read for it, by whatever means files are read. -/
theorem stays_below (root key : String) :
    ((pathFor? root key).isSome = true ↔
      key ≠ "" ∧ key.toList.head? ≠ some '/' ∧ ".." ∉ segments key ∧ (segments key).head? ≠ some ".") ∧
    (∀ path, pathFor? root key = some path →
      names (segments key) ≠ [] ∧ (∀ s ∈ names (segments key), IsOrdinary s) ∧
      FilePath.parts path = FilePath.parts root ++ (names (segments key)).map Part.name ∧
      (∀ (m : Type → Type) [Monad m] (read : String → m (Except ReadFault ByteArray)),
        fetchBelow read root key = do return ofContent (← read path)) ∧
      ∀ (files : FileTree) (v : ByteArray), (directory root).fetch files key = .value v →
        ∃ d, files.walk [] (segments root) = .ok d ∧ d.Under (names (segments key)) (.file v)) ∧
    (pathFor? root key = none →
      (∀ (m : Type → Type) [Monad m] (read : String → m (Except ReadFault ByteArray)),
        fetchBelow read root key = pure .missing) ∧
      ∀ files : FileTree, (directory root).fetch files key = .missing) := by
  refine ⟨?_, fun path hpath => ?_, fun hnone => ?_⟩
  · rw [← isInside_iff, Option.isSome_iff_exists]
    simp only [pathFor?_eq_some_iff, exists_and_left, exists_eq, and_true]
  · obtain ⟨hinside, rfl⟩ := pathFor?_eq_some_iff.mp hpath
    obtain ⟨-, hslash, hup, hhere⟩ := isInside_iff.mp hinside
    have hopening : FilePath.opening key = [] := FilePath.opening_eq_nil_iff.mpr ⟨hslash, hhere⟩
    refine ⟨names_ne_nil hinside, fun s => isOrdinary_of_mem hup, FilePath.parts_join hopening hup root,
      fun m _ read => fetchBelow_of_path hpath, fun files v hvalue => ?_⟩
    exact FilePath.under_of_read_join hopening hup (read_of_fetch hpath hvalue)
  · exact ⟨fun m _ read => fetchBelow_of_refused hnone, fun files => fetchBelow_of_refused (m := Id) hnone⟩

example : pathFor? "/srv" "a//b/./c" = some "/srv/a//b/./c" := by decide +kernel

end PeerCache.Backfill
