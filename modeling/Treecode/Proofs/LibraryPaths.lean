import Mathlib.Tactic.SplitIfs
import Treecode.Library
import Treecode.Proofs.Spelled

set_option autoImplicit false

namespace Treecode

theorem IsName.no_slash {name : String} (named : IsName name) : '/' ∉ name.toList := by
  obtain ⟨word, _⟩ := named
  cases spelled : name.toList with
  | nil => exact List.not_mem_nil
  | cons c more =>
    simp only [spelled, Lexer.isWord, Bool.and_eq_true, List.all_eq_true] at word
    intro member
    cases List.mem_cons.1 member with
    | inl first =>
      subst first
      exact absurd word.1.2 (by decide)
    | inr later => exact absurd (word.2 _ later) (by decide)

namespace Path

theorem names_of_no_slash {file : String} (plain : '/' ∉ file.toList) :
    Files.names file = [file] := by
  unfold Files.names
  rw [List.splitOn_eq_singleton plain, List.map_singleton, String.ofList_toList]

theorem names_append_slash {file : String} (plain : '/' ∉ file.toList) (front : List Char)
    (path : String) (written : path.toList = front ++ '/' :: file.toList) :
    Files.names path = (front.splitOn '/').map String.ofList ++ [file] := by
  unfold Files.names
  rw [written, List.splitOn_append_cons_self, List.splitOn_eq_singleton plain, List.map_append,
    List.map_singleton, String.ofList_toList]

/-- A path below a directory is the name alone or has a slash in front of the name. -/
theorem join_cases (file dir : String) :
    join dir file = file ∨ ∃ front, (join dir file).toList = front ++ '/' :: file.toList := by
  unfold join
  split
  · exact .inl rfl
  · right
    split
    · rename_i ended
      obtain ⟨front, written⟩ := List.getLast?_eq_some_iff.1 ended
      refine ⟨front, ?_⟩
      rw [String.toList_append, written, List.append_assoc, List.singleton_append]
    · refine ⟨dir.toList, ?_⟩
      rw [String.toList_append, String.toList_append, List.append_assoc]
      rfl

theorem not_isAbsolute {file : String} (plain : '/' ∉ file.toList) : isAbsolute file = false := by
  unfold isAbsolute
  rw [beq_eq_false_iff_ne]
  intro head
  exact plain (List.mem_of_mem_head? head)

/-- The last of the names of a path below a directory. -/
theorem getLast?_names_join {file : String} (plain : '/' ∉ file.toList) (dir : String) :
    (Files.names (join dir file)).getLast? = some file := by
  cases join_cases file dir with
  | inl alone => rw [alone, names_of_no_slash plain, List.getLast?_singleton]
  | inr below =>
    obtain ⟨front, written⟩ := below
    rw [names_append_slash plain front _ written, List.getLast?_concat]

/-- The last name of a path below a directory says where the path leads. -/
theorem lastName?_join {file : String} (plain : '/' ∉ file.toList)
    (moves : Files.staysPut file = false)
    (dir : String) : lastName? (join dir file) = some file := by
  unfold lastName? steps
  cases join_cases file dir with
  | inl alone =>
    have present : file ≠ "" := by
      rintro rfl
      cases moves
    rw [alone, names_of_no_slash plain, not_isAbsolute plain]
    simp only [List.filter_nil, Bool.false_eq_true, ↓reduceIte, if_neg present,
      List.getLast?_singleton]
  | inr below =>
    obtain ⟨front, written⟩ := below
    rw [names_append_slash plain front _ written]
    cases split : front.splitOn '/' with
    | nil => exact absurd split (List.splitOn_ne_nil _ _)
    | cons first rest =>
      have kept : [file].filter (!Files.staysPut ·) = [file] := by
        rw [List.filter_cons_of_pos (by rw [moves]; rfl), List.filter_nil]
      have last : ∀ before : List String, ∀ head : String,
          (head :: (before ++ [file])).getLast? = some file := by
        intro before head
        rw [← List.cons_append, List.getLast?_concat]
      simp only [List.map_cons, List.cons_append, List.filter_append, kept]
      split_ifs
      · exact last _ _
      · exact List.getLast?_concat
      · exact last _ _

end Path

namespace Files

theorem mem_nodes_of_lookup {nodes : List (List String × FileNode)} {place : List String}
    {node : FileNode} (found : nodes.lookup place = some node) : (place, node) ∈ nodes := by
  obtain ⟨front, back, rfl, _⟩ := List.lookup_eq_some_iff.1 found
  exact List.mem_append_right _ List.mem_cons_self

/-- A walk that ends at a file ends with the last name, at a place that is listed. -/
theorem walk_file {files : Files} {here place names : List String} {bytes : ByteArray}
    (arrived : files.walk here names = .ok (place, .file bytes)) :
    place.getLast? = names.getLast? ∧ (place, .file bytes) ∈ files.nodes := by
  induction names generalizing here with
  | nil =>
    unfold walk at arrived
    cases arrived
  | cons name rest ih =>
    have onward : ∀ next, files.walk next rest = .ok (place, .file bytes) →
        place.getLast? = (name :: rest).getLast? ∧ (place, .file bytes) ∈ files.nodes := by
      intro next arrived
      obtain ⟨last, listed⟩ := ih arrived
      cases rest with
      | nil =>
        unfold walk at arrived
        cases arrived
      | cons second others => exact ⟨last.trans List.getLast?_cons_cons.symm, listed⟩
    unfold walk at arrived
    split at arrived
    · exact onward _ arrived
    split at arrived
    · exact onward _ arrived
    split at arrived
    · cases arrived
    split at arrived
    · cases arrived
    · exact onward _ arrived
    · rename_i found
      split at arrived
      · rename_i ends
        cases arrived
        subst ends
        refine ⟨List.getLast?_concat, mem_nodes_of_lookup ?_⟩
        unfold node? at found
        split at found
        · cases found
        · exact found
      · cases arrived

/-- A path that leads to a file leads to a listed place with the last of its names. -/
theorem isFile_place {files : Files} {path : String} (leads : files.isFile path) :
    ∃ entry ∈ files.nodes, entry.1.getLast? = (names path).getLast? := by
  unfold isFile find at leads
  split at leads
  · rename_i place bytes arrived
    unfold route at arrived
    split_ifs at arrived
    all_goals
      obtain ⟨last, listed⟩ := walk_file arrived
      exact ⟨_, listed, last⟩
  · cases leads

end Files

namespace Library

theorem toList_file (name : String) :
    (name ++ ".mcl").toList = name.toList ++ ['.', 'm', 'c', 'l'] := by
  rw [String.toList_append]
  rfl

theorem file_no_slash {name : String} (named : IsName name) : '/' ∉ (name ++ ".mcl").toList := by
  rw [toList_file, List.mem_append]
  rintro (inside | ending)
  · exact named.no_slash inside
  · exact absurd ending (by decide)

theorem staysPut_file (name : String) : Files.staysPut (name ++ ".mcl") = false := by
  have long : 1 < (name ++ ".mcl").toList.length := by
    rw [toList_file, List.length_append]
    exact Nat.lt_of_lt_of_le (by decide : 1 < 4) (Nat.le_add_left _ _)
  unfold Files.staysPut
  simp only [Bool.or_eq_false_iff, beq_eq_false_iff_ne]
  constructor
  · intro empty
    rw [empty] at long
    exact absurd long (by decide)
  · intro point
    rw [point] at long
    exact absurd long (by decide)

theorem name_eq_of_same {files : Files} {searchPath : SearchPath} {name other path path' : String}
    (named : IsName name) (named' : IsName other) (found : find? files searchPath name = some path)
    (found' : find? files searchPath other = some path') (same : Path.same path path') :
    name = other := by
  have last : ∀ {name path : String}, IsName name → find? files searchPath name = some path →
      Path.lastName? path = some (name ++ ".mcl") := by
    intro name path named found
    obtain ⟨dir, _, rfl⟩ := List.mem_map.1 (List.mem_of_find?_eq_some found)
    exact Path.lastName?_join (file_no_slash named) (staysPut_file name) dir
  have steps : Path.steps path = Path.steps path' := eq_of_beq same
  have equal : Path.lastName? path = Path.lastName? path' := by
    unfold Path.lastName?
    rw [steps]
  rw [last named found, last named' found', Option.some.injEq] at equal
  exact (String.append_left_inj _).1 equal

def paths (files : Files) (searchPath : SearchPath) : List String :=
  searchPath.flatMap fun dir =>
    files.nodes.map fun entry => Path.join dir (entry.1.getLast?.getD "")

theorem length_paths (files : Files) (searchPath : SearchPath) :
    (paths files searchPath).length = searchPath.length * files.nodes.length := by
  unfold paths
  induction searchPath with
  | nil => simp only [List.flatMap_nil, List.length_nil, Nat.zero_mul]
  | cons dir rest ih =>
    rw [List.flatMap_cons, List.length_append, ih, List.length_map, List.length_cons, Nat.succ_mul,
      Nat.add_comm]

theorem mem_paths {files : Files} {searchPath : SearchPath} {name path : String}
    (named : IsName name)
    (found : find? files searchPath name = some path) : path ∈ paths files searchPath := by
  obtain ⟨dir, listed, rfl⟩ := List.mem_map.1 (List.mem_of_find?_eq_some found)
  have leads : files.isFile (candidate name dir) := List.find?_some found
  obtain ⟨entry, node, last⟩ := Files.isFile_place leads
  rw [candidate, Path.getLast?_names_join (file_no_slash named)] at last
  refine List.mem_flatMap.2 ⟨dir, listed, List.mem_map.2 ⟨entry, node, ?_⟩⟩
  rw [last]
  rfl

/-- There are no more paths of libraries than pairs of a directory and a place. -/
theorem length_le_of_nodup {files : Files} {searchPath : SearchPath} {list : List String}
    (nodup : list.Nodup) (found : ∀ path ∈ list, path ∈ paths files searchPath) :
    list.length ≤ searchPath.length * files.nodes.length := by
  rw [← length_paths]
  exact nodup.length_le_of_subset found

end Library

end Treecode
