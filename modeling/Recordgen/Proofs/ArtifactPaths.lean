import Recordgen.Layout
import Recordgen.Proofs.TextParts
import Recordgen.Store.Path

/-! # Where the headers of a class stand

The class of a record is named by ASCII letters and digits alone, whatever the key of the record
(`Artifact.IsPlain`), so the paths of its two headers have the parts that one expects
(`Artifact.parts_basePath`, `Artifact.parts_leafPath`). A base header never stands where a leaf
header stands (`Artifact.base_ne_leaf`).
-/

namespace Recordgen

namespace Naming

theorem isAlphanum_toUpper {c : Char} (plain : c.isAlphanum = true) :
    c.toUpper.isAlphanum = true := by
  unfold Char.toUpper
  split
  · rename_i small
    have capital : 'A'.val ≤ c.val + ('A'.val - 'a'.val) ∧
        c.val + ('A'.val - 'a'.val) ≤ 'Z'.val := by
      simp only [UInt32.le_iff_toNat_le, UInt32.toNat_add, UInt32.reduceSub, UInt32.reduceToNat,
        Char.reduceVal] at small ⊢
      omega
    have classes : ∀ d : Char, d.isAlphanum = (d.isUpper || d.isLower || d.isDigit) := fun _ => rfl
    rw [classes, Bool.or_assoc]
    exact Bool.or_eq_true_iff.mpr (.inl (decide_eq_true capital))
  · exact plain

/-- A class name has letters and digits only. -/
theorem isAlphanum_of_mem_upperCamel {key : String} {c : Char}
    (member : c ∈ (upperCamel key).toList) : c.isAlphanum = true := by
  rw [upperCamel, String.toList_ofList, upperCamelChars, List.mem_flatMap] at member
  obtain ⟨word, listed, inside⟩ := member
  have plain : ∀ d ∈ word, d.isAlphanum = true := by
    intro d inside
    have kept := (Text.mem_of_mem_splitWhere (List.mem_filter.mp listed).1 inside).2
    simpa using kept
  cases word with
  | nil => cases inside
  | cons d word =>
      rcases List.mem_cons.mp inside with rfl | inside
      · exact isAlphanum_toUpper (plain d List.mem_cons_self)
      · exact plain c (List.mem_cons_of_mem _ inside)

end Naming

namespace Path

variable {path : String} {all : List String}

private theorem segments_append_slash (first second : String) :
    segments (first ++ "/" ++ second) = segments first ++ segments second := by
  have slash : (first ++ "/" ++ second).toList = first.toList ++ '/' :: second.toList := by
    simp
  rw [segments, slash, Text.splitAtChar, Text.splitWhere_append (by decide), List.map_append]
  rfl

private theorem segments_of_none {segment : String} (none : '/' ∉ segment.toList) :
    segments segment = [segment] := by
  rw [segments, Text.splitAtChar, Text.splitWhere_of_none, List.map_singleton,
    String.ofList_toList]
  intro c inside
  exact decide_eq_false fun same => none (same ▸ inside)

private theorem start_of_segments (cut : segments path = all)
    (counted : ∀ segment ∈ all, isPart segment = true) : start path = ([], all) := by
  rw [start, cut]
  split
  · exact absurd (counted "" List.mem_cons_self) (by decide)
  · exact absurd (counted "." List.mem_cons_self) (by decide)
  · rfl

/-- A path that is spelled plainly has its segments as parts. -/
theorem parts_of_segments (cut : segments path = all)
    (counted : ∀ segment ∈ all, isPart segment = true) : parts path = all := by
  rw [parts, start_of_segments cut counted]
  exact List.filter_eq_self.mpr counted

private theorem trimEnd_of_counted (counted : ∀ segment ∈ all, isPart segment = true) :
    trimEnd all = all := by
  rw [trimEnd]
  cases reversed : all.reverse with
  | nil => exact (List.reverse_eq_nil_iff.mp reversed).symm
  | cons segment rest =>
      have member : segment ∈ all := List.mem_reverse.mp (reversed ▸ List.mem_cons_self)
      rw [List.dropWhile_cons, counted segment member, ← List.reverse_reverse all, reversed]
      rfl

/-- The directory that holds a path is spelled by all segments but the last one. -/
theorem parent?_of_segments {last : String} {outer : List String}
    (cut : segments path = outer ++ [last])
    (counted : ∀ segment ∈ outer ++ [last], isPart segment = true) :
    parent? path = some ("/".intercalate outer) := by
  have inside : ∀ segment ∈ outer, isPart segment = true := fun segment member =>
    counted segment (List.mem_append_left _ member)
  rw [parent?, start_of_segments cut counted]
  dsimp only
  rw [trimEnd_of_counted counted]
  split
  · rename_i empty
    exact absurd empty (by simp)
  · rw [List.dropLast_concat, trimEnd_of_counted inside]
    rfl

end Path

namespace Artifact

/-- A class with a name of ASCII letters and digits. -/
def IsPlain (artifact : Artifact) : Prop :=
  ∀ c ∈ artifact.className.toList, c.isAlphanum = true

/-- What is named after a record has a plain name, whatever the key. -/
theorem isPlain_ofRecord (kind : ArtifactKind) (key : String) : (ofRecord kind key).IsPlain := by
  intro c member
  rw [ofRecord, String.toList_append, List.mem_append] at member
  rcases member with member | member
  · exact Naming.isAlphanum_of_mem_upperCamel member
  · have plain : kind.suffix.toList.all Char.isAlphanum = true := by
      cases kind <;> decide
    exact List.all_eq_true.mp plain c member

theorem isPlain_config : config.IsPlain := by
  have plain : config.className.toList.all Char.isAlphanum = true := by
    decide
  exact List.all_eq_true.mp plain

theorem isPlain_subsystem : subsystem.IsPlain := by
  have plain : subsystem.className.toList.all Char.isAlphanum = true := by
    decide
  exact List.all_eq_true.mp plain

variable {artifact other : Artifact}

/-- The last part of a header's path. -/
theorem segments_header (plain : artifact.IsPlain) (start : String) (whole : '/' ∉ start.toList) :
    Path.segments (start ++ artifact.className ++ ".h") = [start ++ artifact.className ++ ".h"] := by
  have absent : '/' ∉ artifact.className.toList :=
    fun member => absurd (plain '/' member) (by decide)
  refine Path.segments_of_none ?_
  simp [whole, absent]

/-- A name that ends in `.h` counts as a part of a path. -/
theorem isPart_header (name : String) : Path.isPart (name ++ ".h") = true := by
  have long : 2 ≤ (name ++ ".h").toList.length := by
    rw [String.toList_append, List.length_append]
    exact Nat.le_add_left _ _
  have named : name ++ ".h" ≠ "" := fun same => absurd (same ▸ long) (by decide)
  have longer : name ++ ".h" ≠ "." := fun same => absurd (same ▸ long) (by decide)
  simp [Path.isPart, named, longer]

private theorem isPart_directory (kind : ArtifactKind) :
    ∀ segment ∈ Path.segments kind.directory, Path.isPart segment = true := by
  cases kind <;> decide

private theorem segments_leafPath (plain : artifact.IsPlain) :
    Path.segments artifact.leafPath =
      Path.segments artifact.kind.directory ++ [artifact.className ++ ".h"] := by
  have last := segments_header plain "" (by decide)
  rw [String.empty_append] at last
  rw [leafPath, String.append_assoc, Path.segments_append_slash, last]

private theorem segments_basePath (plain : artifact.IsPlain) :
    Path.segments artifact.basePath =
      Path.segments artifact.kind.directory ++ ["base"] ++ [artifact.baseClass ++ ".h"] := by
  have spelled : artifact.basePath =
      artifact.kind.directory ++ "/" ++ "base" ++ "/" ++ (artifact.baseClass ++ ".h") := by
    have divided : "/base/" = "/" ++ "base" ++ "/" := rfl
    rw [basePath, divided]
    simp only [String.append_assoc]
  rw [spelled, Path.segments_append_slash, Path.segments_append_slash, baseClass,
    segments_header plain "Base" (by decide)]
  rfl

private theorem isPart_of_mem_leafPath (artifact : Artifact) :
    ∀ segment ∈ Path.segments artifact.kind.directory ++ [artifact.className ++ ".h"],
      Path.isPart segment = true := by
  rw [List.forall_mem_append, List.forall_mem_singleton]
  exact ⟨isPart_directory _, isPart_header _⟩

private theorem isPart_of_mem_basePath (artifact : Artifact) :
    ∀ segment ∈ Path.segments artifact.kind.directory ++ ["base"] ++ [artifact.baseClass ++ ".h"],
      Path.isPart segment = true := by
  rw [List.forall_mem_append, List.forall_mem_append, List.forall_mem_singleton,
    List.forall_mem_singleton]
  exact ⟨⟨isPart_directory _, by decide⟩, isPart_header _⟩

section

variable (plain : artifact.IsPlain)

include plain

/-- A leaf file stands right in the directory of its kind. -/
theorem parts_leafPath :
    Path.parts artifact.leafPath =
      Path.segments artifact.kind.directory ++ [artifact.className ++ ".h"] :=
  Path.parts_of_segments (segments_leafPath plain) artifact.isPart_of_mem_leafPath

/-- A base file stands one directory further in. -/
theorem parts_basePath :
    Path.parts artifact.basePath =
      Path.segments artifact.kind.directory ++ ["base"] ++ [artifact.baseClass ++ ".h"] :=
  Path.parts_of_segments (segments_basePath plain) artifact.isPart_of_mem_basePath

theorem parent?_leafPath :
    Path.parent? artifact.leafPath = some artifact.kind.directory := by
  rw [Path.parent?_of_segments (segments_leafPath plain) artifact.isPart_of_mem_leafPath]
  cases artifact.kind <;> decide

theorem parent?_basePath :
    Path.parent? artifact.basePath = some (artifact.kind.directory ++ "/base") := by
  rw [Path.parent?_of_segments (segments_basePath plain) artifact.isPart_of_mem_basePath]
  cases artifact.kind <;> decide

theorem plain_leafPath :
    Path.plain artifact.leafPath = artifact.leafPath := by
  rw [Path.plain, parts_leafPath plain, leafPath, String.append_assoc]
  cases artifact.kind <;> rfl

/-- **A base header never stands where a leaf header stands.** -/
theorem base_ne_leaf (alsoPlain : other.IsPlain) :
    Path.parts artifact.basePath ≠ Path.parts other.leafPath := by
  rw [parts_basePath plain, parts_leafPath alsoPlain]
  intro same
  -- The directory of the base headers of one kind is not the directory of another kind's leaves.
  have outer : (Path.segments artifact.kind.directory ++ ["base"]) =
      Path.segments other.kind.directory := by
    have cut := congrArg List.dropLast same
    simpa using cut
  revert outer
  cases artifact.kind <;> cases other.kind <;> decide

end

private theorem directory_eq_of_segments {kind another : ArtifactKind}
    (same : Path.segments kind.directory = Path.segments another.directory) :
    kind.directory = another.directory := by
  revert same
  cases kind <;> cases another <;> decide

private theorem eq_of_header_eq {start first second : String}
    (same : start ++ first ++ ".h" = start ++ second ++ ".h") : first = second := by
  have chars := congrArg String.toList same
  simp only [String.toList_append, List.append_cancel_right_eq, List.append_cancel_left_eq] at chars
  exact String.toList_inj.mp chars

/-- Two classes of one name in one directory, whose headers stand at the same paths. -/
def SharesPaths (artifact other : Artifact) : Prop :=
  artifact.kind.directory = other.kind.directory ∧ artifact.className = other.className

theorem SharesPaths.symm (shares : artifact.SharesPaths other) : other.SharesPaths artifact :=
  ⟨shares.1.symm, shares.2.symm⟩

/-- Artifacts that share their paths have the same base file. -/
theorem SharesPaths.basePath_eq (shares : artifact.SharesPaths other) :
    artifact.basePath = other.basePath := by
  rw [basePath, basePath, baseClass, baseClass, shares.1, shares.2]

theorem SharesPaths.leafPath_eq (shares : artifact.SharesPaths other) :
    artifact.leafPath = other.leafPath := by
  rw [leafPath, leafPath, shares.1, shares.2]

/-- Base files meet exactly if the artifacts share their paths. -/
theorem parts_basePath_eq_iff (plain : artifact.IsPlain) (alsoPlain : other.IsPlain) :
    Path.parts artifact.basePath = Path.parts other.basePath ↔ artifact.SharesPaths other := by
  constructor
  · rw [parts_basePath plain, parts_basePath alsoPlain]
    intro same
    obtain ⟨outer, inner⟩ := List.append_inj' same rfl
    exact ⟨directory_eq_of_segments (List.append_cancel_right outer),
      eq_of_header_eq (List.singleton_inj.mp inner)⟩
  · exact fun shares => congrArg Path.parts shares.basePath_eq

/-- Leaf files meet exactly if the artifacts share their paths. -/
theorem parts_leafPath_eq_iff (plain : artifact.IsPlain) (alsoPlain : other.IsPlain) :
    Path.parts artifact.leafPath = Path.parts other.leafPath ↔ artifact.SharesPaths other := by
  constructor
  · rw [parts_leafPath plain, parts_leafPath alsoPlain]
    intro same
    obtain ⟨outer, inner⟩ := List.append_inj' same rfl
    have named : "" ++ artifact.className ++ ".h" = "" ++ other.className ++ ".h" := by
      simpa using inner
    exact ⟨directory_eq_of_segments outer, eq_of_header_eq named⟩
  · exact fun shares => congrArg Path.parts shares.leafPath_eq

end Artifact

end Recordgen
