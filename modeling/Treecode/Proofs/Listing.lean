import Mathlib
import Treecode.Proofs.LibraryPaths

set_option autoImplicit false

namespace Treecode

namespace Files

/-- The name of a file: it has no slash and leads neither upward nor nowhere. -/
structure FileName (file : String) : Prop where
  plain : '/' ∉ file.toList
  moves : staysPut file = false
  inner : file ≠ ".."
  noZero : '\x00' ∉ file.toList

instance (file : String) : Decidable (FileName file) :=
  decidable_of_iff ('/' ∉ file.toList ∧ staysPut file = false ∧ file ≠ ".." ∧ '\x00' ∉ file.toList)
    ⟨fun all => ⟨all.1, all.2.1, all.2.2.1, all.2.2.2⟩, fun named =>
      ⟨named.plain, named.moves, named.inner, named.noZero⟩⟩

/-- Files as a file system keeps them: at a place there is one thing, and its name is a file name
that is no longer than a file system stores. -/
structure Stored (files : Files) : Prop where
  apart : (files.nodes.map Prod.fst).Nodup
  named : ∀ entry ∈ files.nodes, ∀ name, entry.1.getLast? = some name → FileName name
  short : ∀ entry ∈ files.nodes, ∀ name, entry.1.getLast? = some name → tooLong name = false

/-- What stands at a place of stored files is what they list for it. -/
theorem Stored.lookup_iff {files : Files} (stored : files.Stored) (place : List String)
    (node : FileNode) : files.nodes.lookup place = some node ↔ (place, node) ∈ files.nodes := by
  constructor
  · exact mem_nodes_of_lookup
  · intro member
    obtain ⟨front, back, split⟩ := List.append_of_mem member
    apply List.lookup_eq_some_iff.2
    refine ⟨front, back, split, ?_⟩
    intro entry before
    have apart := stored.apart
    rw [split, List.map_append, List.map_cons] at apart
    have different := (List.nodup_append.1 apart).2.2 entry.1
      (List.mem_map_of_mem before) place List.mem_cons_self
    exact bne_iff_ne.2 (Ne.symm different)

/-- Names followed one after another. What follows a file is not found. -/
theorem walk_append (files : Files) (here front : List String) {back : List String}
    (more : back ≠ []) :
    files.walk here (front ++ back) =
      match files.walk here front with
      | .error fault => .error fault
      | .ok (place, .directory) => files.walk place back
      | .ok (_, .file _) => .error .notADirectory := by
  induction front generalizing here with
  | nil => rfl
  | cons name rest ih =>
    rw [List.cons_append, walk, walk]
    by_cases stays : staysPut name
    · rw [if_pos stays, if_pos stays, ih]
    · rw [if_neg stays, if_neg stays]
      by_cases upward : name = ".."
      · rw [if_pos upward, if_pos upward, ih]
      · rw [if_neg upward, if_neg upward]
        by_cases long : tooLong name
        · rw [if_pos long, if_pos long]
        · rw [if_neg long, if_neg long]
          split
          · rfl
          · exact ih _
          · have unfinished : rest ++ back ≠ [] := by
              intro nothing
              exact more (List.append_eq_nil_iff.1 nothing).2
            rw [if_neg unfinished]
            by_cases last : rest = []
            · rw [if_pos last]
            · rw [if_neg last]

/-- The names of a path below a directory lead where those of the directory and the name lead. -/
theorem walk_join (files : Files) (here : List String) {dir file : String} (named : FileName file)
    (entry : dir ≠ "") :
    files.walk here (names (Path.join dir file)) = files.walk here (names dir ++ [file]) := by
  have relative := Path.not_isAbsolute named.plain
  unfold Path.join
  rw [relative, Bool.false_or, decide_eq_false entry, if_neg Bool.false_ne_true]
  by_cases ended : dir.toList.getLast? = some '/'
  · rw [if_pos ended]
    obtain ⟨front, written⟩ := List.getLast?_eq_some_iff.1 ended
    have joined : (dir ++ file).toList = front ++ '/' :: file.toList := by
      rw [String.toList_append, written, List.append_assoc, List.singleton_append]
    have empty : names dir = (front.splitOn '/').map String.ofList ++ [""] :=
      Path.names_append_slash (by decide) front dir written
    rw [Path.names_append_slash named.plain front _ joined, empty, List.append_assoc,
      walk_append files here _ (List.cons_ne_nil file []),
      walk_append files here _ (show [""] ++ [file] ≠ [] from List.cons_ne_nil _ _)]
    -- The empty name after the last slash of the directory stays where it is.
    have skip : ∀ place, files.walk place ([""] ++ [file]) = files.walk place [file] := fun place =>
      rfl
    split
    · rfl
    · rw [skip]
    · rfl
  · rw [if_neg ended]
    have joined : (dir ++ "/" ++ file).toList = dir.toList ++ '/' :: file.toList := by
      rw [String.toList_append, String.toList_append, List.append_assoc]
      rfl
    rw [Path.names_append_slash named.plain dir.toList _ joined]
    rfl

theorem FileName.nonempty {file : String} (named : FileName file) : file ≠ "" := by
  rintro rfl
  cases named.moves

/-- A path below a directory is longer than that of the directory. -/
theorem join_eq_append {dir file : String} (named : FileName file) (entry : dir ≠ "") :
    ∃ more, Path.join dir file = dir ++ more ∧ more ≠ "" ∧ '\x00' ∉ more.toList := by
  have relative := Path.not_isAbsolute named.plain
  unfold Path.join
  rw [relative, Bool.false_or, decide_eq_false entry, if_neg Bool.false_ne_true]
  by_cases ended : dir.toList.getLast? = some '/'
  · rw [if_pos ended]
    exact ⟨file, rfl, named.nonempty, named.noZero⟩
  · rw [if_neg ended, String.append_assoc]
    refine ⟨"/" ++ file, rfl,
      fun nothing => named.nonempty (String.append_eq_empty_iff.1 nothing).2, ?_⟩
    rw [String.toList_append, List.mem_append]
    rintro (slash | inside)
    · exact absurd slash (by decide)
    · exact named.noZero inside

/-- A path below a directory is not that of the directory. -/
theorem join_ne {dir file : String} (named : FileName file) : Path.join dir file ≠ dir := by
  intro same
  by_cases entry : dir = ""
  · subst entry
    unfold Path.join at same
    rw [decide_eq_true rfl, Bool.or_true, if_pos rfl] at same
    exact named.nonempty same
  · obtain ⟨more, joined, nonempty, _⟩ := join_eq_append named entry
    have letters := congrArg String.toList (joined.symm.trans same)
    rw [String.toList_append, List.append_right_eq_self] at letters
    exact nonempty (String.toList_eq_nil_iff.1 letters)

/-- A path below a directory starts where the path of the directory does, unless it is too long. -/
theorem route_join {dir file : String} (named : FileName file) (entry : dir ≠ "")
    (fits : (Path.join dir file).utf8ByteSize ≤ 4095) :
    route (Path.join dir file) =
      match route dir with
      | .error fault => .error fault
      | .ok (start, _) => .ok (start, names (Path.join dir file)) := by
  obtain ⟨more, joined, _, noZero⟩ := join_eq_append named entry
  have longer : dir.utf8ByteSize ≤ (Path.join dir file).utf8ByteSize := by
    rw [joined, String.utf8ByteSize_append]
    omega
  have nonempty : Path.join dir file ≠ "" := by
    intro empty
    rw [joined] at empty
    exact entry (String.append_eq_empty_iff.1 empty).1
  have zeros : (Path.join dir file).toList.contains '\x00' = dir.toList.contains '\x00' := by
    rw [joined, String.toList_append, Bool.eq_iff_iff, List.contains_iff_mem, List.contains_iff_mem,
      List.mem_append, or_iff_left noZero]
  have head : (Path.join dir file).toList.head? = dir.toList.head? := by
    have letters : dir.toList ≠ [] := fun nothing => entry (String.toList_eq_nil_iff.1 nothing)
    rw [joined, String.toList_append, List.head?_append_of_ne_nil _ letters]
  have shortDir : ¬ 4095 < dir.utf8ByteSize := by omega
  have shortPath : ¬ 4095 < (Path.join dir file).utf8ByteSize := by omega
  unfold route
  rw [zeros, head, if_neg nonempty, if_neg entry, if_neg shortDir, if_neg shortPath]
  by_cases zero : dir.toList.contains '\x00' = true
  · simp only [if_pos zero]
  · simp only [if_neg zero]
    by_cases absolute : dir.toList.head? = some '/'
    · simp only [if_pos absolute]
    · simp only [if_neg absolute]

/-- A path below a directory leads to what stands in that directory. -/
theorem find_join (files : Files) {dir file : String} (named : FileName file) (entry : dir ≠ "")
    (fits : (Path.join dir file).utf8ByteSize ≤ 4095) :
    files.find (Path.join dir file) =
      match files.find dir with
      | .error fault => .error fault
      | .ok (place, .directory) => files.walk place [file]
      | .ok (_, .file _) => .error .notADirectory := by
  unfold Files.find
  rw [route_join named entry fits]
  cases started : route dir with
  | error fault => rfl
  | ok begun =>
    obtain ⟨start, steps⟩ := begun
    have same : steps = names dir := by
      unfold route at started
      split_ifs at started <;> cases started <;> rfl
    subst same
    dsimp only
    rw [walk_join files start named entry, walk_append files start _ (List.cons_ne_nil file [])]

/-- A name leads to a file in a directory if the file stands there. -/
theorem walk_file_iff {files : Files} (stored : files.Stored) {place : List String} {file : String}
    (named : FileName file) (reached : List String) (bytes : ByteArray) :
    files.walk place [file] = .ok (reached, .file bytes) ↔
      reached = place ++ [file] ∧ (place ++ [file], .file bytes) ∈ files.nodes := by
  have inner : isBase (place ++ [file]) = false := by
    unfold isBase
    rw [Bool.or_eq_false_iff]
    constructor
    · rw [beq_eq_false_iff_ne]
      intro root
      have last := congrArg List.getLast? root
      rw [List.getLast?_concat] at last
      cases last
      exact named.plain (by decide)
    · rw [List.all_append, Bool.and_eq_false_iff]
      right
      simpa using named.inner
  have found : files.node? (place ++ [file]) = files.nodes.lookup (place ++ [file]) := by
    unfold node?
    rw [inner, if_neg Bool.false_ne_true]
  rw [walk, if_neg (by rw [named.moves]; exact Bool.false_ne_true), if_neg named.inner, found]
  constructor
  · intro arrived
    split at arrived
    · cases arrived
    · split at arrived
      · cases arrived
      · cases arrived
      · next held stands =>
        rw [if_pos rfl] at arrived
        cases arrived
        exact ⟨rfl, (stored.lookup_iff _ _).1 stands⟩
  · rintro ⟨rfl, listed⟩
    have short : tooLong file = false := stored.short _ listed file List.getLast?_concat
    rw [short, if_neg Bool.false_ne_true, (stored.lookup_iff _ _).2 listed]
    rfl

theorem mem_namesIn {files : Files} {place : List String} {name : String} {isFile : Bool} :
    (name, isFile) ∈ files.namesIn place ↔ ∃ node, (place ++ [name], node) ∈ files.nodes ∧
    node.isFile = isFile := by
  unfold namesIn
  rw [List.mem_filterMap]
  constructor
  · rintro ⟨⟨names, node⟩, member, kept⟩
    dsimp only at kept
    split at kept
    · next last ends =>
      split at kept
      · next here =>
        cases kept
        refine ⟨node, ?_, rfl⟩
        rw [← here, List.dropLast_append_getLast? _ ends]
        exact member
      · cases kept
    · cases kept
  · rintro ⟨node, member, rfl⟩
    refine ⟨_, member, ?_⟩
    simp only [List.getLast?_concat, List.dropLast_concat, ↓reduceIte]

/-- What is listed as a file in a directory is one. -/
theorem file_mem_namesIn {files : Files} {place : List String} {name : String} :
    (name, true) ∈ files.namesIn place ↔ ∃ bytes, (place ++ [name], .file bytes) ∈ files.nodes := by
  rw [mem_namesIn]
  constructor
  · rintro ⟨node, member, isFile⟩
    cases node with
    | directory => cases isFile
    | file bytes => exact ⟨bytes, member⟩
  · rintro ⟨bytes, member⟩
    exact ⟨_, member, rfl⟩

/-- A path below a directory leads to a file if the file stands in that directory and the path is
not too long. -/
theorem isFile_join {files : Files} (stored : files.Stored) {dir file : String}
    (named : FileName file) (entry : dir ≠ "") :
    files.isFile (Path.join dir file) = true ↔ (Path.join dir file).utf8ByteSize ≤ 4095 ∧
      ∃ place, files.find dir = .ok (place, .directory) ∧ (file, true) ∈ files.namesIn place := by
  constructor
  · intro leads
    have fits : (Path.join dir file).utf8ByteSize ≤ 4095 := by
      unfold isFile Files.find route at leads
      split_ifs at leads <;> omega
    refine ⟨fits, ?_⟩
    unfold isFile at leads
    rw [find_join files named entry fits] at leads
    cases found : files.find dir with
    | error fault =>
      rw [found] at leads
      cases leads
    | ok result =>
      obtain ⟨place, node⟩ := result
      rw [found] at leads
      cases node with
      | file bytes => cases leads
      | directory =>
        dsimp only at leads
        split at leads
        · next reached bytes arrived =>
          refine ⟨place, rfl, file_mem_namesIn.2 ⟨bytes, ?_⟩⟩
          exact ((walk_file_iff stored named reached bytes).1 arrived).2
        · cases leads
  · rintro ⟨fits, place, found, listed⟩
    obtain ⟨bytes, member⟩ := file_mem_namesIn.1 listed
    unfold isFile
    rw [find_join files named entry fits, found]
    dsimp only
    rw [(walk_file_iff stored named (place ++ [file]) bytes).2 ⟨rfl, member⟩]

end Files

namespace Library

theorem nameOf?_eq_some {fileName name : String} :
    nameOf? fileName = some name ↔ fileName = name ++ ".mcl" ∧ name ≠ "" := by
  constructor
  · intro read
    unfold nameOf? at read
    split at read
    · next c rest spelled =>
      cases read
      have whole : fileName.toList = (c :: rest).reverse ++ ['.', 'm', 'c', 'l'] := by
        rw [← List.reverse_reverse fileName.toList, spelled]
        simp
      constructor
      · apply String.toList_injective
        rw [toList_file, String.toList_ofList, whole]
      · intro empty
        have letters := congrArg String.toList empty
        rw [String.toList_ofList] at letters
        simp at letters
    · cases read
  · rintro ⟨rfl, nonempty⟩
    have letters : name.toList.reverse ≠ [] := by
      intro nothing
      exact nonempty (String.toList_eq_nil_iff.1 (List.reverse_eq_nil_iff.1 nothing))
    obtain ⟨c, rest, spelled⟩ := List.exists_cons_of_ne_nil letters
    unfold nameOf?
    rw [toList_file, List.reverse_append, spelled]
    have back : (c :: rest).reverse = name.toList := by rw [← spelled, List.reverse_reverse]
    show some (String.ofList (c :: rest).reverse) = some name
    rw [back, String.ofList_toList]

variable {files : Files} {walk : Walk} {name dir : String}

/-- What is known of a walk through a directory of some files: it comes upon the directory itself
and what stands directly in it, a root that is a file stands alone, and where nothing went wrong no
file is left out. -/
structure Walks (files : Files) (walk : Walk) : Prop where
  paths : ∀ dir entry, .ok entry ∈ walk dir →
    entry.path = dir ∨ ∃ file, Files.FileName file ∧ entry.path = Path.join dir file
  alone : ∀ dir, .ok ⟨dir, true⟩ ∈ walk dir → walk dir = [.ok ⟨dir, true⟩]
  whole : ∀ dir file, Files.FileName file → files.isFile (Path.join dir file) = true →
    (∀ fault, .error fault ∉ walk dir) → .ok ⟨Path.join dir file, true⟩ ∈ walk dir

/-- Where the list of an entry and the search for a name in it differ. -/
inductive Differs (files : Files) (walk : Walk) (name dir : String) : Prop where
  /-- An entry that is itself a library file is listed, and not searched. -/
  | itself (listed : .ok ⟨dir, true⟩ ∈ walk dir)
      (named : Path.lastName? dir = some (name ++ ".mcl"))
  /-- A file is found that is not listed, as something went wrong on the walk: the entry is empty,
  or it may be searched and not read. -/
  | unlisted (found : files.isFile (candidate name dir) = true)
      (missed : .ok ⟨candidate name dir, true⟩ ∉ walk dir) (fault : String)
      (failed : .error fault ∈ walk dir)
  /-- A file is listed that is not found: its path is too long, or the entry may be read and not
  searched. -/
  | unreached (listed : .ok ⟨candidate name dir, true⟩ ∈ walk dir)
      (missing : files.isFile (candidate name dir) = false)

theorem fileName_of_letters (letters : ∀ c ∈ name.toList, Lexer.continuesName c) :
    Files.FileName (name ++ ".mcl") := by
  have absent : ∀ c, Lexer.continuesName c = false → c ∉ ['.', 'm', 'c', 'l'] →
      c ∉ (name ++ ".mcl").toList := by
    intro c other ending member
    rw [toList_file, List.mem_append] at member
    rcases member with inside | last
    · rw [letters c inside] at other
      cases other
    · exact ending last
  constructor
  · exact absent '/' (by decide) (by decide)
  · exact staysPut_file name
  · intro upward
    have ending := congrArg (fun text => text.toList.getLast?) upward
    simp only [toList_file, List.getLast?_append] at ending
    cases ending
  · exact absent '\x00' (by decide) (by decide)

/-- A walk lists the files that are named like libraries. -/
theorem mem_inEntry (nonempty : name ≠ "") {path : String} :
    ⟨name, path⟩ ∈ inEntry walk dir ↔
      .ok ⟨path, true⟩ ∈ walk dir ∧ Path.lastName? path = some (name ++ ".mcl") := by
  have named : ∀ path, (Path.lastName? path).bind nameOf? = some name ↔
      Path.lastName? path = some (name ++ ".mcl") := by
    intro path
    rw [Option.bind_eq_some_iff]
    constructor
    · rintro ⟨fileName, last, spelled⟩
      rw [last, (nameOf?_eq_some.1 spelled).1]
    · intro last
      exact ⟨_, last, nameOf?_eq_some.2 ⟨rfl, nonempty⟩⟩
  unfold inEntry
  rw [List.mem_mergeSort, List.mem_filterMap, ← named]
  constructor
  · rintro ⟨item, member, kept⟩
    split at kept
    · obtain ⟨_, spelled, same⟩ := Option.map_eq_some_iff.1 kept
      cases same
      exact ⟨member, spelled⟩
    · cases kept
  · rintro ⟨member, spelled⟩
    refine ⟨_, member, ?_⟩
    dsimp only
    rw [spelled]
    rfl

theorem lastName?_candidate (letters : ∀ c ∈ name.toList, Lexer.continuesName c) (dir : String) :
    Path.lastName? (candidate name dir) = some (name ++ ".mcl") :=
  Path.lastName?_join (fileName_of_letters letters).plain (fileName_of_letters letters).moves dir

/-- What is listed of a name is the file of that name in the directory, or the entry itself. -/
theorem Walks.path_eq (walks : Walks files walk) {path : String}
    (member : .ok ⟨path, true⟩ ∈ walk dir)
    (named : Path.lastName? path = some (name ++ ".mcl")) :
    path = dir ∨ path = candidate name dir := by
  refine (walks.paths dir _ member).imp_right ?_
  rintro ⟨file, fileName, same⟩
  have same : path = Path.join dir file := same
  subst same
  rw [Path.lastName?_join fileName.plain fileName.moves, Option.some.injEq] at named
  rw [named]
  rfl

/-- Where an entry does not differ, it lists a library exactly if the library is found there. -/
theorem Walks.mem_inEntry_iff_isFile (walks : Walks files walk) (nonempty : name ≠ "")
    (letters : ∀ c ∈ name.toList, Lexer.continuesName c) (alike : ¬ Differs files walk name dir)
    {path : String} :
    ⟨name, path⟩ ∈ inEntry walk dir ↔ files.isFile (candidate name dir) = true ∧
      path = candidate name dir := by
  rw [mem_inEntry nonempty]
  constructor
  · rintro ⟨member, named⟩
    rcases walks.path_eq member named with rfl | rfl
    · exact absurd (.itself member named) alike
    · exact ⟨Bool.not_eq_false _ ▸ fun missing => alike (.unreached member missing), rfl⟩
  · rintro ⟨found, rfl⟩
    refine ⟨?_, lastName?_candidate letters dir⟩
    by_contra missed
    refine missed (walks.whole dir _ (fileName_of_letters letters) found fun fault failed => ?_)
    exact alike (.unlisted found missed fault failed)

/-- Where an entry differs, it lists a library that is not found there, or the other way round. -/
theorem Differs.disagrees (nonempty : name ≠ "")
    (letters : ∀ c ∈ name.toList, Lexer.continuesName c) (differs : Differs files walk name dir) :
    ¬ ∀ path, ⟨name, path⟩ ∈ inEntry walk dir ↔
      files.isFile (candidate name dir) = true ∧ path = candidate name dir := by
  intro agree
  cases differs with
  | itself member named =>
    have same := ((agree dir).1 ((mem_inEntry nonempty).2 ⟨member, named⟩)).2
    exact Files.join_ne (fileName_of_letters letters) same.symm
  | unlisted found missed =>
    exact missed ((mem_inEntry nonempty).1 ((agree _).2 ⟨found, rfl⟩)).1
  | unreached member missing =>
    have found :=
      ((agree _).1 ((mem_inEntry nonempty).2 ⟨member, lastName?_candidate letters dir⟩)).1
    exact Bool.false_ne_true (missing.symm.trans found)

/-- The first library of a name stays the one that is listed. -/
theorem find?_addNew (list known : List Library) (name : String) :
    (list.foldl addNew known).find? (·.name == name) =
      (known.find? (·.name == name)).or (list.find? (·.name == name)) := by
  induction list generalizing known with
  | nil => simp
  | cons library rest ih =>
    rw [List.foldl_cons, ih]
    unfold addNew
    by_cases taken : known.any (·.name == library.name)
    · rw [if_pos taken, List.find?_cons]
      by_cases asked : library.name = name
      · obtain ⟨old, member, same⟩ := List.any_eq_true.1 taken
        have present : (known.find? (·.name == name)).isSome := by
          apply List.find?_isSome.2
          exact ⟨old, member, by rw [← asked]; exact same⟩
        obtain ⟨first, found⟩ := Option.isSome_iff_exists.1 present
        rw [found]
        rfl
      · rw [beq_eq_false_iff_ne.2 asked]
    · rw [if_neg taken, List.find?_append, Option.or_assoc, List.find?_singleton, List.find?_cons]
      cases library.name == name <;> rfl

theorem nodup_addNew (list known : List Library) (apart : (known.map Library.name).Nodup) :
    ((list.foldl addNew known).map Library.name).Nodup := by
  induction list generalizing known with
  | nil => exact apart
  | cons library rest ih =>
    rw [List.foldl_cons]
    apply ih
    unfold addNew
    by_cases taken : known.any (·.name == library.name)
    · rw [if_pos taken]
      exact apart
    · rw [if_neg taken, List.map_append, List.map_singleton]
      apply List.Nodup.append apart (List.nodup_singleton _)
      apply List.disjoint_singleton.2
      intro member
      obtain ⟨old, inside, same⟩ := List.mem_map.1 member
      exact taken (List.any_eq_true.2 ⟨old, inside, beq_iff_eq.2 same⟩)

/-- No name is listed twice. -/
theorem nodup_listed (walk : Walk) (searchPath : SearchPath) :
    ((listed walk searchPath).map Library.name).Nodup :=
  nodup_addNew _ [] List.nodup_nil

/-- The only library of a name is the first one of that name. -/
theorem find?_named {list : List Library} {path : String} (member : ⟨name, path⟩ ∈ list)
    (only : ∀ other, ⟨name, other⟩ ∈ list → other = path) :
    list.find? (·.name == name) = some ⟨name, path⟩ := by
  have present : (list.find? (·.name == name)).isSome := by
    apply List.find?_isSome.2
    exact ⟨_, member, beq_self_eq_true name⟩
  obtain ⟨⟨name', other⟩, first⟩ := Option.isSome_iff_exists.1 present
  have same : name' = name := by simpa using List.find?_some first
  subst same
  rw [first, only other (List.mem_of_find?_eq_some first)]

/-- A library is listed if it is the first one of its name. -/
theorem mem_listed (walk : Walk) (searchPath : SearchPath) (name path : String) :
    ⟨name, path⟩ ∈ listed walk searchPath ↔
      (searchPath.flatMap (inEntry walk)).find? (·.name == name) = some ⟨name, path⟩ := by
  have first := find?_addNew (searchPath.flatMap (inEntry walk)) [] name
  rw [List.find?_nil, Option.none_or] at first
  rw [← first]
  constructor
  · intro member
    apply find?_named member
    intro other second
    have same := List.inj_on_of_nodup_map (nodup_listed walk searchPath) second member rfl
    exact congrArg Library.path same
  · exact List.mem_of_find?_eq_some

/-- Where an entry does not differ, the first library of a name in it is the one that is found
there. -/
theorem Walks.find?_inEntry (walks : Walks files walk) (nonempty : name ≠ "")
    (letters : ∀ c ∈ name.toList, Lexer.continuesName c) (alike : ¬ Differs files walk name dir) :
    (inEntry walk dir).find? (·.name == name) =
      if files.isFile (candidate name dir) then some ⟨name, candidate name dir⟩ else none := by
  have agree : ∀ path, ⟨name, path⟩ ∈ inEntry walk dir ↔
      files.isFile (candidate name dir) = true ∧ path = candidate name dir :=
    fun _ => walks.mem_inEntry_iff_isFile nonempty letters alike
  by_cases found : files.isFile (candidate name dir) = true
  · rw [if_pos found]
    apply find?_named
    · exact (agree (candidate name dir)).2 ⟨found, rfl⟩
    · intro other member
      exact ((agree other).1 member).2
  · rw [if_neg found, List.find?_eq_none]
    rintro ⟨name', path⟩ member same
    have equal : name' = name := eq_of_beq same
    subst equal
    exact found ((agree path).1 member).1

theorem Walks.inEntry_unique (walks : Walks files walk) (nonempty : name ≠ "") {path other : String}
    (first : ⟨name, path⟩ ∈ inEntry walk dir) (second : ⟨name, other⟩ ∈ inEntry walk dir) :
    path = other := by
  obtain ⟨member, named⟩ := (mem_inEntry nonempty).1 first
  obtain ⟨member', named'⟩ := (mem_inEntry nonempty).1 second
  -- An entry that is itself listed as a file stands alone.
  rcases walks.path_eq member named with own | below
  · rw [own] at member ⊢
    rw [walks.alone dir member, List.mem_singleton] at member'
    cases member'
    rfl
  · rcases walks.path_eq member' named' with own' | below'
    · rw [own'] at member' ⊢
      rw [walks.alone dir member', List.mem_singleton] at member
      cases member
      rfl
    · rw [below, below']

theorem Walks.mem_listed_single (walks : Walks files walk) (nonempty : name ≠ "") {path : String} :
    ⟨name, path⟩ ∈ listed walk [dir] ↔ ⟨name, path⟩ ∈ inEntry walk dir := by
  rw [mem_listed, List.flatMap_singleton]
  constructor
  · exact List.mem_of_find?_eq_some
  · intro member
    exact find?_named member fun other second => walks.inEntry_unique nonempty second member

/-- The search for a library gets to no entry at which the list differs from it. It ends where the
library is found. -/
def SearchedAlike (files : Files) (walk : Walk) (name : String) (searchPath : SearchPath) : Prop :=
  ∀ before dir after, searchPath = before ++ dir :: after →
    (∀ earlier ∈ before, files.isFile (candidate name earlier) = false) →
      ¬ Differs files walk name dir

theorem searchedAlike_cons {rest : SearchPath} : SearchedAlike files walk name (dir :: rest) ↔
    ¬ Differs files walk name dir ∧
      (files.isFile (candidate name dir) = false → SearchedAlike files walk name rest) := by
  constructor
  · intro alike
    constructor
    · exact alike [] dir rest rfl (fun _ member => absurd member List.not_mem_nil)
    · intro missing before entry after split absent
      apply alike (dir :: before) entry after
      · rw [split, List.cons_append]
      · exact List.forall_mem_cons.2 ⟨missing, absent⟩
  · rintro ⟨here, later⟩ before entry after split absent
    cases before with
    | nil =>
      injection split with same
      rw [← same]
      exact here
    | cons first before =>
      injection split with same split
      rw [← same] at absent
      exact later (absent dir List.mem_cons_self) before entry after split
        (fun earlier member => absent earlier (List.mem_cons_of_mem _ member))

/-- The first library of a name in the entries of a search path is the one that is found. -/
theorem Walks.find?_entries (walks : Walks files walk) (nonempty : name ≠ "")
    (letters : ∀ c ∈ name.toList, Lexer.continuesName c) {searchPath : SearchPath}
    (alike : SearchedAlike files walk name searchPath) :
    (searchPath.flatMap (inEntry walk)).find? (·.name == name) =
      (find? files searchPath name).map fun path => ⟨name, path⟩ := by
  induction searchPath with
  | nil => rfl
  | cons dir rest ih =>
    obtain ⟨here, later⟩ := searchedAlike_cons.1 alike
    unfold find?
    rw [List.flatMap_cons, List.find?_append, walks.find?_inEntry nonempty letters here,
      List.map_cons, List.find?_cons]
    cases found : files.isFile (candidate name dir) with
    | true => rfl
    | false => exact ih (later found)

/-- However directories are walked through, no name is listed twice. A library of an identifier is
listed with a path exactly if it is found on that path, wherever the search gets to no entry at
which the list differs from it; and where there is only an entry at which they differ, that is not
so. -/
theorem available_iff_find (walks : Walks files walk) (searchPath : SearchPath) (dir : String)
    (nonempty : name ≠ "") (letters : ∀ c ∈ name.toList, Lexer.continuesName c) :
    ((listed walk searchPath).map Library.name).Nodup ∧
      (SearchedAlike files walk name searchPath →
        ∀ path, ⟨name, path⟩ ∈ listed walk searchPath ↔ find? files searchPath name = some path) ∧
      (Differs files walk name dir →
        ¬ ∀ path, ⟨name, path⟩ ∈ listed walk [dir] ↔ find? files [dir] name = some path) := by
  refine ⟨nodup_listed walk searchPath, ?_, ?_⟩
  · intro alike path
    rw [mem_listed, walks.find?_entries nonempty letters alike, Option.map_eq_some_iff]
    constructor
    · rintro ⟨found, first, same⟩
      cases same
      exact first
    · intro first
      exact ⟨path, first, rfl⟩
  · intro differs agree
    apply differs.disagrees nonempty letters
    intro path
    have found : find? files [dir] name = some path ↔
        files.isFile (candidate name dir) = true ∧ path = candidate name dir := by
      unfold find?
      rw [List.map_singleton, List.find?_singleton, Option.ite_none_right_eq_some,
        Option.some.injEq, eq_comm (a := path)]
    rw [← walks.mem_listed_single nonempty, agree path, found]

/-- A walk through a directory of stored files comes upon what stands in it. -/
theorem walks_walkThrough (stored : files.Stored) : Walks files files.walkThrough := by
  constructor
  · intro dir entry member
    unfold Files.walkThrough at member
    split at member
    · simp at member
    · left
      cases List.mem_singleton.1 member
      rfl
    · next place _ =>
      rcases List.mem_cons.1 member with own | inside
      · left
        cases own
        rfl
      · right
        obtain ⟨⟨name, isFile⟩, listed, same⟩ := List.mem_map.1 inside
        cases same
        obtain ⟨node, stands, _⟩ := Files.mem_namesIn.1 listed
        exact ⟨name, stored.named _ stands name List.getLast?_concat, rfl⟩
  · intro dir member
    unfold Files.walkThrough at member ⊢
    split at member
    · simp at member
    · rfl
    · rcases List.mem_cons.1 member with own | inside
      · cases own
      · obtain ⟨⟨name, isFile⟩, listed, same⟩ := List.mem_map.1 inside
        obtain ⟨node, stands, _⟩ := Files.mem_namesIn.1 listed
        simp only [Except.ok.injEq, WalkEntry.mk.injEq] at same
        exact absurd same.1 (Files.join_ne (stored.named _ stands name List.getLast?_concat))
  · intro dir file named found faultless
    by_cases entry : dir = ""
    · subst entry
      exact absurd (List.mem_singleton.2 rfl) (faultless FileFault.notFound.message)
    · obtain ⟨_, place, leads, listed⟩ := (Files.isFile_join stored named entry).1 found
      unfold Files.walkThrough
      rw [leads]
      exact List.mem_cons_of_mem _ (List.mem_map.2 ⟨(file, true), listed, rfl⟩)

/-- A file below a directory that a walk comes upon stands in that directory. -/
theorem mem_walkThrough (stored : files.Stored) {file : String} (named : Files.FileName file)
    (member : .ok ⟨Path.join dir file, true⟩ ∈ files.walkThrough dir) :
    ∃ place, files.find dir = .ok (place, .directory) ∧ (file, true) ∈ files.namesIn place := by
  unfold Files.walkThrough at member
  split at member
  · simp at member
  · simp only [List.mem_singleton, Except.ok.injEq, WalkEntry.mk.injEq] at member
    exact absurd member.1 (Files.join_ne named)
  · next place leads =>
    rcases List.mem_cons.1 member with own | inside
    · simp at own
    · obtain ⟨⟨name, isFile⟩, listed, same⟩ := List.mem_map.1 inside
      simp only [Except.ok.injEq, WalkEntry.mk.injEq] at same
      obtain ⟨node, stands, _⟩ := Files.mem_namesIn.1 listed
      have fileName := stored.named _ stands name List.getLast?_concat
      -- The last name of a path below a directory tells the file.
      have last := congrArg Path.lastName? same.1
      rw [Path.lastName?_join fileName.plain fileName.moves,
        Path.lastName?_join named.plain named.moves, Option.some.injEq] at last
      rw [last, same.2] at listed
      exact ⟨place, leads, listed⟩

/-- Walks through stored files come upon all of them, so that the list and the search differ at the
empty entry, which is searched as the working directory, at an entry that is itself a library file,
and at a directory so deep that the path of the file in it is longer than a path may be. -/
theorem differs_walkThrough_iff (stored : files.Stored)
    (letters : ∀ c ∈ name.toList, Lexer.continuesName c) :
    Differs files files.walkThrough name dir ↔
      (dir = "" ∧ files.isFile (name ++ ".mcl") = true) ∨
      (files.isFile dir = true ∧ Path.lastName? dir = some (name ++ ".mcl")) ∨
      4095 < (candidate name dir).utf8ByteSize ∧
        ∃ place, files.find dir = .ok (place, .directory) ∧
          (name ++ ".mcl", true) ∈ files.namesIn place := by
  have fileName := fileName_of_letters letters
  have empty : candidate name "" = name ++ ".mcl" := by
    unfold candidate Path.join
    rw [Path.not_isAbsolute fileName.plain]
    rfl
  have nothing : files.walkThrough "" = [.error FileFault.notFound.message] := rfl
  constructor
  · intro differs
    cases differs with
    | itself listed named =>
      refine .inr (.inl ⟨?_, named⟩)
      have alone := (walks_walkThrough stored).alone dir listed
      unfold Files.walkThrough at alone
      unfold Files.isFile
      split at alone
      · cases alone
      · rename_i leads
        rw [leads]
      · cases alone
    | unlisted found missed fault failed =>
      refine .inl ?_
      by_cases entry : dir = ""
      · rw [entry, empty] at found
        exact ⟨entry, found⟩
      · obtain ⟨_, place, leads, _⟩ := (Files.isFile_join stored fileName entry).1 found
        unfold Files.walkThrough at failed
        rw [leads] at failed
        simp at failed
    | unreached listed missing =>
      refine .inr (.inr ?_)
      obtain ⟨place, leads, stands⟩ := mem_walkThrough stored fileName listed
      have entry : dir ≠ "" := by
        rintro rfl
        cases leads
      refine ⟨Nat.lt_of_not_le fun fits => ?_, place, leads, stands⟩
      exact Bool.false_ne_true
        (missing.symm.trans ((Files.isFile_join stored fileName entry).2
          ⟨fits, place, leads, stands⟩))
  · rintro (⟨rfl, found⟩ | ⟨leads, named⟩ | ⟨long, place, leads, stands⟩)
    · refine .unlisted (empty ▸ found) ?_ FileFault.notFound.message (List.mem_singleton.2 rfl)
      simp [nothing]
    · refine .itself ?_ named
      unfold Files.isFile at leads
      unfold Files.walkThrough
      cases found : files.find dir with
      | error fault =>
        rw [found] at leads
        cases leads
      | ok result =>
        obtain ⟨place, node⟩ := result
        rw [found] at leads
        cases node with
        | directory => cases leads
        | file bytes => exact List.mem_singleton.2 rfl
    · refine .unreached ?_ ?_
      · unfold Files.walkThrough
        rw [leads]
        exact List.mem_cons_of_mem _ (List.mem_map.2 ⟨_, stands, rfl⟩)
      · have entry : dir ≠ "" := by
          rintro rfl
          cases leads
        refine Bool.eq_false_iff.2 fun found => ?_
        exact absurd ((Files.isFile_join stored fileName entry).1 found).1 (Nat.not_le_of_lt long)

/-- A library in the second of three entries, of which the last one, the empty entry, is not
listed. -/
theorem available_iff_find_hidden :
    let files : Files :=
  ⟨[(["a.mcl"], .file .empty), (["libs"], .directory), (["libs", "a.mcl"], .file .empty)]⟩
    Walks files files.walkThrough ∧
      SearchedAlike files files.walkThrough "a" ["missing", "libs", ""] ∧
      (⟨"a", "libs/a.mcl"⟩ ∈ listed files.walkThrough ["missing", "libs", ""] ↔
        find? files ["missing", "libs", ""] "a" = some "libs/a.mcl") ∧
      ¬ ∀ path, ⟨"a", path⟩ ∈ listed files.walkThrough [""] ↔ find? files [""] "a" = some path := by
  intro files
  have stored : files.Stored := ⟨by decide, by decide, by decide⟩
  have walks := walks_walkThrough stored
  have letters : ∀ c ∈ "a".toList, Lexer.continuesName c := by
    intro c member
    have same : c = 'a' := by simpa using member
    have letter : Text.isLetter 'a' = true := Text.isLetter_of_isAlpha (by decide) (by decide)
    rw [same, Lexer.continuesName, letter]
    rfl
  have plain : ∀ dir, dir ≠ "" → files.isFile dir = false →
    (candidate "a" dir).utf8ByteSize ≤ 4095 → ¬ Differs files files.walkThrough "a" dir := by
    intro dir entry noFile fits differs
    rcases (differs_walkThrough_iff stored letters).1 differs with ⟨empty, _⟩ | ⟨leads, _⟩ |
      ⟨long, _⟩
    · exact entry empty
    · rw [noFile] at leads
      cases leads
    · omega
  have searched : SearchedAlike files files.walkThrough "a" ["missing", "libs", ""] := by
    apply searchedAlike_cons.2 ⟨plain "missing" (by decide) (by decide) (by decide), fun _ => ?_⟩
    apply searchedAlike_cons.2 ⟨plain "libs" (by decide) (by decide) (by decide), fun missing => ?_⟩
    exact absurd missing (by decide)
  have differs : Differs files files.walkThrough "a" "" :=
    .unlisted (by decide) (by decide) FileFault.notFound.message (by decide)
  obtain ⟨_, agree, disagree⟩ :=
    available_iff_find walks ["missing", "libs", ""] "" (by decide) letters
  exact ⟨walks, searched, agree searched _, disagree differs⟩

end Library

end Treecode
