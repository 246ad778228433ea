import JackCompiler.CommandLine.FileTree
import JackCompiler.Proofs.CommandLine.Paths
import Mathlib.Data.List.Nodup

/-! What reading, listing and writing do at the places that paths lead to. -/

namespace JackCompiler

namespace FileTree

/-- The entries of a tree are in places of their own, and have names that paths can hold. -/
structure Formed (tree : FileTree) : Prop where
  distinct : (tree.entries.map Prod.fst).Nodup
  named : ∀ entry ∈ tree.entries, ∀ name ∈ entry.1, IsFileName name

/-- Leaving out the entry of a place keeps those of the others. -/
private theorem lookup_filter_ne {place other : Place} (different : other ≠ place) :
    ∀ entries : List (Place × Entry),
      (entries.filter fun (kept, _) => kept ≠ place).lookup other = entries.lookup other
  | [] => rfl
  | (kept, entry) :: entries => by
    have ih := lookup_filter_ne different entries
    -- An entry that is left out could not be found, and one that stays is found as before.
    by_cases left : kept = place
    · subst left
      have unequal : (other == kept) = false := by simpa using different
      simpa [List.lookup_cons, unequal] using ih
    · by_cases found : other = kept <;> simp_all [List.lookup_cons]

/-- An insertion changes what stands at its place, and nothing else. -/
theorem get?_insert (tree : FileTree) {place : Place} (below : place ≠ []) (entry : Entry)
    (other : Place) :
    (tree.insert place entry).get? other =
      if other = place then some entry else tree.get? other := by
  by_cases same : other = place
  · subst same
    simp [get?, insert, below]
  · -- The lookup passes over the new entry and over the old one that went.
    have unequal : (other == place) = false := by simpa using same
    have kept := lookup_filter_ne same tree.entries
    simp only [get?, insert, List.lookup_cons, unequal, kept, if_neg same]

/-- What stands below the root is an entry of the tree. -/
theorem mem_entries_of_get? {tree : FileTree} {place : Place} {entry : Entry}
    (stands : tree.get? place = some entry) (below : place ≠ []) :
    (place, entry) ∈ tree.entries := by
  rw [get?, if_neg below] at stands
  obtain ⟨before, behind, split, -⟩ := List.lookup_eq_some_iff.mp stands
  rw [split]
  exact List.mem_append_right _ List.mem_cons_self

/-- Names that are followed one after the other can be followed in two turns. -/
theorem follow_append (tree : FileTree) (place : Place) (before behind : List ByteString) :
    tree.follow place (before ++ behind) =
      (tree.follow place before).bind fun reached => tree.follow reached behind := by
  fun_induction tree.follow place before <;> simp_all [follow, Except.bind]

/-- An empty name stays where it is. -/
theorem eq_of_follow_empty {tree : FileTree} {place reached : Place}
    (followed : tree.follow place [[]] = .ok reached) : reached = place := by
  -- It is only followed from a directory, where it moves nowhere.
  unfold follow at followed
  split at followed <;> simp_all [follow]

/-- A place that is reached through directories is reached in every tree that has them too. -/
theorem follow_of_directories {tree later : FileTree} {place reached : Place}
    {names : List ByteString}
    (directories : ∀ other, tree.get? other = some .directory → later.get? other = some .directory)
    (followed : tree.follow place names = .ok reached) :
    later.follow place names = .ok reached := by
  -- A name is only followed from a directory, so that every turn finds the same in the other tree.
  fun_induction tree.follow place names with
  | case1 place => simpa [follow] using followed
  | case2 => cases followed
  | case3 => cases followed
  | case4 place name names directory here ih =>
    rw [follow, directories _ directory]
    simpa [here] using ih followed
  | case5 place names directory ordinary ih =>
    rw [follow, directories _ directory]
    simpa [ordinary] using ih followed
  | case6 place name names directory ordinary notParent ih =>
    rw [follow, directories _ directory]
    simpa [ordinary, notParent] using ih followed

section

variable {tree : FileTree} {working place : Place} {path : Path}

/-- A path that leads to a place leads there in every tree that has its directories. -/
theorem resolve_of_directories {later : FileTree}
    (directories : ∀ other, tree.get? other = some .directory → later.get? other = some .directory)
    (resolved : tree.resolve working path = .ok place) :
    later.resolve working path = .ok place := by
  unfold resolve at resolved ⊢
  split at resolved
  · cases resolved
  · -- Where a path starts depends on its bytes alone.
    rename_i nonempty
    rw [if_neg nonempty]
    exact follow_of_directories directories resolved

/-- A joined path goes on where the path to the directory leads. -/
theorem resolve_join (resolved : tree.resolve working path = .ok place) {name : ByteString}
    (noSlash : Path.slash ∉ name) :
    tree.resolve working (path.join name) = tree.follow place [name] := by
  obtain ⟨above, split, joined⟩ := path.exists_names_join
  unfold resolve at resolved ⊢
  split at resolved
  · cases resolved
  · rename_i written
    rw [if_neg (Path.join_ne_nil written name), Path.head?_join written, joined name noSlash,
      follow_append]
    -- The names above the file lead to the place, with or without an empty name behind them.
    obtain names | names := split
    · rw [names] at resolved
      rw [resolved]
      rfl
    · rw [names, follow_append] at resolved
      cases reached : tree.follow _ above with
      | error fault =>
        rw [reached] at resolved
        cases resolved
      | ok last =>
        rw [reached] at resolved
        rw [← eq_of_follow_empty resolved]
        rfl

/-- A name of a file leads from a directory to the file in it. -/
theorem follow_name (directory : tree.get? place = some .directory) {name : ByteString}
    (named : IsFileName name) : tree.follow place [name] = .ok (place ++ [name]) := by
  simp [follow, directory, named.nonempty, named.notHere, named.notParent]

/-- Two dots lead from a directory to the one that it is in. -/
theorem follow_parent (directory : tree.get? place = some .directory) :
    tree.follow place [Path.parent] = .ok place.dropLast := by
  simp [follow, directory, Path.parent, Path.here]

/-- What a path names is what stands at the place that it leads to. -/
theorem find_of_resolve (resolved : tree.resolve working path = .ok place) {entry : Entry}
    (stands : tree.get? place = some entry) : tree.find working path = .ok entry := by
  simp [find, resolved, stands, Bind.bind, Except.bind, Pure.pure, Except.pure]

/-- A file is read at the place that its path leads to. -/
theorem read_of_resolve (resolved : tree.resolve working path = .ok place) {content : ByteArray}
    (stands : tree.get? place = some (.file content)) :
    tree.read working path = .ok content := by
  simp [read, find_of_resolve resolved stands, Bind.bind, Except.bind, Pure.pure, Except.pure]

/-- The name that a place has in a directory. -/
private def nameIn? (directory place : Place) : Option ByteString :=
  if place.dropLast = directory then place.getLast? else none

/-- A place has a name in a directory when it is right below it. -/
private theorem nameIn?_eq_some_iff {directory place : Place} {name : ByteString} :
    nameIn? directory place = some name ↔ place = directory ++ [name] := by
  unfold nameIn?
  constructor
  · intro found
    split at found
    · rename_i above
      rw [← above, List.dropLast_append_getLast? name found]
    · cases found
  · rintro rfl
    simp

/-- A directory lists each name of an entry in it once. -/
theorem exists_list (formed : tree.Formed) (resolved : tree.resolve working path = .ok place) :
    ∃ names, tree.list working path = .ok names ∧ names.Nodup ∧
      (∀ name ∈ names, IsFileName name) ∧
      ∀ name, name ∈ names ↔ (tree.get? (place ++ [name])).isSome := by
  -- The names are read off the places, which the entries are found under.
  have listed (name : ByteString) :
      name ∈ (tree.entries.map Prod.fst).filterMap (nameIn? place) ↔
        place ++ [name] ∈ tree.entries.map Prod.fst := by
    simp only [List.mem_filterMap, nameIn?_eq_some_iff, exists_eq_right]
  refine ⟨(tree.entries.map Prod.fst).filterMap (nameIn? place), ?_, ?_, fun name => ?_,
    fun name => ?_⟩
  · rw [list, resolved, List.filterMap_map]
    rfl
  · -- Two places with one name in the same directory are the same place.
    refine formed.distinct.filterMap fun other same name found found' => ?_
    rw [nameIn?_eq_some_iff.mp found, nameIn?_eq_some_iff.mp found']
  · rw [listed]
    intro inside
    obtain ⟨entry, present, placed⟩ := List.mem_map.mp inside
    exact formed.named entry present name (by simp [placed])
  · rw [listed]
    simp [get?, List.lookup_isSome_iff]

end

end FileTree

end JackCompiler
