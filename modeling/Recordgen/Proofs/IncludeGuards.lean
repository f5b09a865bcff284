import Recordgen.Proofs.NameLetters
import Recordgen.Proofs.PathClashes

/-! # Include guards

A guard is the path of its header in capitals, with an underscore for every other character. Classes
are named by letters and digits, so two headers have one guard exactly if they stand in one directory
and their classes are named alike up to the case of letters (`Artifact.SharesGuards`). The guards of a
document differ wherever the paths do exactly if no two records are named like this, nor a record and
the meta class or the traits of another one (`compile_guards_distinct_iff`).
-/

namespace Recordgen

open Outcome

namespace Naming

variable {name : String}

/-- How a guard writes a character of a path. -/
def guardChar (c : Char) : Char :=
  if c.isAlphanum then c.toUpper else '_'

private theorem toList_includeGuard (path : String) :
    (includeGuard path).toList = path.toList.map guardChar ++ ['_'] := by
  rw [includeGuard, String.toList_ofList]
  rfl

private theorem map_guardChar (plain : ∀ c ∈ name.toList, c.isAlphanum = true) :
    name.toList.map guardChar = letters name := by
  rw [letters_of_plain plain]
  exact List.map_congr_left fun c inside => if_pos (plain c inside)

private theorem underscore_notMem_letters (name : String) : '_' ∉ letters name := by
  intro inside
  obtain ⟨c, kept, same⟩ := List.mem_map.mp inside
  exact ne_underscore (isAlphanum_toUpper (List.mem_filter.mp kept).2) same

private theorem toList_includeGuard_header (folder : String)
    (plain : ∀ c ∈ name.toList, c.isAlphanum = true) :
    (includeGuard (folder ++ "/" ++ name ++ ".h")).toList =
      folder.toList.map guardChar ++ '_' :: letters name ++ ['_', 'H', '_'] := by
  have slash : guardChar '/' = '_' := by decide
  have extension : [guardChar '.', guardChar 'h'] = ['_', 'H'] := by decide
  rw [toList_includeGuard, ← map_guardChar plain]
  simp [slash, extension]

/-- **Guards.** Headers whose names hold letters and digits only have one guard exactly if their
directories have one and the names are the same up to the case of letters. -/
theorem includeGuard_header_eq_iff {folder otherFolder other : String}
    (plain : ∀ c ∈ name.toList, c.isAlphanum = true)
    (alsoPlain : ∀ c ∈ other.toList, c.isAlphanum = true) :
    includeGuard (folder ++ "/" ++ name ++ ".h") =
        includeGuard (otherFolder ++ "/" ++ other ++ ".h") ↔
      includeGuard folder = includeGuard otherFolder ∧ letters name = letters other := by
  rw [← String.toList_inj, ← String.toList_inj, toList_includeGuard_header folder plain,
    toList_includeGuard_header otherFolder alsoPlain, toList_includeGuard, toList_includeGuard,
    List.append_cancel_right_eq, List.append_cancel_right_eq]
  constructor
  · exact Text.append_cons_inj (underscore_notMem_letters name) (underscore_notMem_letters other)
  · intro ⟨folders, names⟩
    rw [folders, names]

end Naming

open Naming (includeGuard letters upperCamel)

namespace Artifact

/-- Classes in one directory whose names differ at most in the case of letters. -/
def SharesGuards (artifact other : Artifact) : Prop :=
  artifact.kind.directory = other.kind.directory ∧
    letters artifact.className = letters other.className

/-- Where the two headers of a class stand. -/
def files (artifact : Artifact) : List String :=
  [artifact.basePath, artifact.leafPath]

variable {artifact other : Artifact}

theorem SharesGuards.symm (shares : artifact.SharesGuards other) : other.SharesGuards artifact :=
  ⟨shares.1.symm, shares.2.symm⟩

private theorem isAlphanum_of_mem_baseClass (plain : artifact.IsPlain) :
    ∀ c ∈ artifact.baseClass.toList, c.isAlphanum = true := by
  have start : "Base".toList.all Char.isAlphanum = true := by decide
  rw [baseClass, String.toList_append, List.forall_mem_append]
  exact ⟨List.all_eq_true.mp start, plain⟩

theorem basePath_eq (artifact : Artifact) :
    artifact.basePath = artifact.kind.directory ++ "/base" ++ "/" ++ artifact.baseClass ++ ".h" := by
  have cut : "/base/" = "/base" ++ "/" := by decide
  rw [basePath, cut, ← String.append_assoc]

section

variable (plain : artifact.IsPlain) (alsoPlain : other.IsPlain)

include plain alsoPlain

/-- A base header and a leaf header never have one guard, as their directories have not. -/
theorem guard_base_ne_leaf :
    includeGuard artifact.basePath ≠ includeGuard other.leafPath := by
  have folders : ∀ kind another : ArtifactKind,
      includeGuard (kind.directory ++ "/base") ≠ includeGuard another.directory := by
    intro kind another
    cases kind <;> cases another <;> decide
  rw [basePath_eq, leafPath]
  intro same
  have parts :=
    (Naming.includeGuard_header_eq_iff (isAlphanum_of_mem_baseClass plain) alsoPlain).mp same
  exact folders _ _ parts.1

private theorem guard_leafPath_eq_iff :
    includeGuard artifact.leafPath = includeGuard other.leafPath ↔ artifact.SharesGuards other := by
  have folders : ∀ kind another : ArtifactKind,
      includeGuard kind.directory = includeGuard another.directory ↔
        kind.directory = another.directory := by
    intro kind another
    cases kind <;> cases another <;> decide
  rw [leafPath, leafPath, Naming.includeGuard_header_eq_iff plain alsoPlain, folders]
  rfl

private theorem guard_basePath_eq_iff :
    includeGuard artifact.basePath = includeGuard other.basePath ↔ artifact.SharesGuards other := by
  have folders : ∀ kind another : ArtifactKind,
      includeGuard (kind.directory ++ "/base") = includeGuard (another.directory ++ "/base") ↔
        kind.directory = another.directory := by
    intro kind another
    cases kind <;> cases another <;> decide
  rw [basePath_eq, basePath_eq, Naming.includeGuard_header_eq_iff
    (isAlphanum_of_mem_baseClass plain) (isAlphanum_of_mem_baseClass alsoPlain), folders, baseClass,
    baseClass, Naming.letters_append, Naming.letters_append, List.append_cancel_left_eq]
  rfl

private theorem leafPath_eq_iff :
    artifact.leafPath = other.leafPath ↔ artifact.SharesPaths other := by
  constructor
  · intro same
    exact (parts_leafPath_eq_iff plain alsoPlain).mp (congrArg Path.parts same)
  · exact SharesPaths.leafPath_eq

end

variable {artifacts : List Artifact}

/-- Guards differ wherever paths do, exactly if classes that share their guards share their paths. -/
theorem guards_distinct_iff (plain : ∀ artifact ∈ artifacts, artifact.IsPlain) :
    (∀ path ∈ artifacts.flatMap files, ∀ other ∈ artifacts.flatMap files,
        path ≠ other → includeGuard path ≠ includeGuard other) ↔
      ∀ artifact ∈ artifacts, ∀ other ∈ artifacts,
        artifact.SharesGuards other → artifact.SharesPaths other := by
  constructor
  · intro distinct artifact member other alsoMember shares
    have leaf : ∀ some ∈ artifacts, some.leafPath ∈ artifacts.flatMap files :=
      fun some member => List.mem_flatMap.mpr ⟨some, member, by simp [files]⟩
    rw [← leafPath_eq_iff (plain _ member) (plain _ alsoMember)]
    by_contra differ
    apply distinct _ (leaf artifact member) _ (leaf other alsoMember) differ
    exact (guard_leafPath_eq_iff (plain _ member) (plain _ alsoMember)).mpr shares
  · intro shared path inside other alsoInside differ same
    obtain ⟨first, member, here⟩ := List.mem_flatMap.mp inside
    obtain ⟨second, alsoMember, there⟩ := List.mem_flatMap.mp alsoInside
    have firstPlain := plain first member
    have secondPlain := plain second alsoMember
    simp only [files, List.mem_cons, List.not_mem_nil, or_false] at here there
    rcases here with rfl | rfl <;> rcases there with rfl | rfl
    · have shares := (guard_basePath_eq_iff firstPlain secondPlain).mp same
      exact differ (shared _ member _ alsoMember shares).basePath_eq
    · exact guard_base_ne_leaf firstPlain secondPlain same
    · exact guard_base_ne_leaf secondPlain firstPlain same.symm
    · have shares := (guard_leafPath_eq_iff firstPlain secondPlain).mp same
      exact differ (shared _ member _ alsoMember shares).leafPath_eq

end Artifact

namespace RecordSequence

/-- A key whose record is not named like the record, the meta class or the traits of another key but
for the case of some letters. -/
def KeysGuarded (key other : String) : Prop :=
  ∀ suffix ∈ ["", "Meta", "Util"],
    letters key = letters (other ++ suffix) → upperCamel key = upperCamel other ++ suffix

instance (key other : String) : Decidable (KeysGuarded key other) :=
  inferInstanceAs (Decidable (∀ suffix ∈ _, _))

variable {sequence other : RecordSequence} {artifact : Artifact}

private theorem letters_ofRecord (kind : ArtifactKind) (key : String) :
    letters (Artifact.ofRecord kind key).className = letters key ++ letters kind.suffix := by
  rw [Artifact.ofRecord, Naming.letters_append, Naming.letters_upperCamel]

/-- Classes of two sequences that share their guards share their paths, if the keys are guarded
against each other. -/
theorem sharesPaths_of_guarded (guarded : KeysGuarded sequence.key other.key)
    (alsoGuarded : KeysGuarded other.key sequence.key) {another : Artifact}
    (member : artifact ∈ sequence.artifacts) (alsoMember : another ∈ other.artifacts)
    (shares : artifact.SharesGuards another) : artifact.SharesPaths another := by
  obtain ⟨-, kind, listed, rfl⟩ := mem_artifacts.mp member
  obtain ⟨-, otherKind, alsoListed, rfl⟩ := mem_artifacts.mp alsoMember
  obtain ⟨directory, names⟩ := shares
  refine ⟨directory, ?_⟩
  change upperCamel sequence.key ++ kind.suffix = upperCamel other.key ++ otherKind.suffix
  rw [letters_ofRecord, letters_ofRecord] at names
  rcases ArtifactKind.suffix_of_directory kind listed otherKind alsoListed directory with
    length | ⟨empty, suffix⟩ | ⟨empty, suffix⟩
  · have written : ∀ first ∈ ArtifactKind.ofSequence, ∀ second ∈ ArtifactKind.ofSequence,
        (first.suffix.toList.length = second.suffix.toList.length →
          (letters first.suffix).length = (letters second.suffix).length) ∧
        (letters first.suffix = letters second.suffix → first.suffix = second.suffix) := by
      decide
    obtain ⟨lengths, suffixes⟩ := written kind listed otherKind alsoListed
    obtain ⟨outer, inner⟩ := List.append_inj' names (lengths length)
    have records := guarded "" List.mem_cons_self (by rw [outer, String.append_empty])
    rw [records, String.append_empty, suffixes inner]
  · have nothing : letters "" = [] := by decide
    rw [empty, nothing, List.append_nil, ← Naming.letters_append] at names
    rw [empty, String.append_empty, guarded _ suffix names]
  · have nothing : letters "" = [] := by decide
    rw [empty, nothing, List.append_nil, ← Naming.letters_append] at names
    rw [empty, String.append_empty, alsoGuarded _ suffix names.symm]

private theorem keysGuarded_of_sharesPaths (random : sequence.kind = .random)
    (alsoRandom : other.kind = .random)
    (shared : ∀ artifact ∈ sequence.artifacts, ∀ another ∈ other.artifacts,
      artifact.SharesGuards another → artifact.SharesPaths another) :
    KeysGuarded sequence.key other.key := by
  intro suffix listed names
  have some : ∀ suffix ∈ ["", "Meta", "Util"], ∃ kind ∈ ArtifactKind.ofSequence,
      kind.directory = ArtifactKind.record.directory ∧ kind.suffix = suffix := by
    decide
  obtain ⟨kind, inside, directory, rfl⟩ := some suffix listed
  have record := mem_artifacts.mpr ⟨random, .record, by decide, rfl⟩
  have like := mem_artifacts.mpr ⟨alsoRandom, kind, inside, rfl⟩
  have shares := shared _ record _ like ⟨directory.symm, ?_⟩
  · exact (String.append_empty).symm.trans shares.2
  · rw [letters_ofRecord, letters_ofRecord, names, Naming.letters_append]
    exact List.append_nil _

/-- A class of a sequence and a class that every document has are told apart by their guards. -/
theorem not_sharesGuards_of_mem (member : artifact ∈ sequence.artifacts) :
    ¬Artifact.config.SharesGuards artifact ∧ ¬Artifact.subsystem.SharesGuards artifact := by
  obtain ⟨-, kind, listed, rfl⟩ := mem_artifacts.mp member
  have elsewhere : ∀ kind ∈ ArtifactKind.ofSequence,
      ArtifactKind.config.directory ≠ kind.directory ∧
        (ArtifactKind.subsystem.directory = kind.directory → kind.suffix = "Generator") := by
    decide
  obtain ⟨config, sole⟩ := elsewhere kind listed
  refine ⟨fun shares => config shares.1, fun ⟨directory, names⟩ => ?_⟩
  -- Both names end in nine letters behind what could be a record's name, but not in the same ones.
  have ends : letters "Generator" ++ letters "Subsystem" =
      letters sequence.key ++ letters "Generator" := by
    rw [letters_ofRecord, sole directory] at names
    rw [← names]
    decide
  exact absurd (List.append_inj' ends (by decide)).2 (by decide)

end RecordSequence

namespace Specification

variable {spec : Specification .resolved}

private theorem mem_artifacts_iff {artifact : Artifact} :
    artifact ∈ spec.artifacts ↔ artifact = .config ∨ artifact = .subsystem ∨
      ∃ sequence ∈ spec.sequences.toList, artifact ∈ sequence.artifacts := by
  rw [artifacts, List.cons_append, List.mem_cons, List.mem_append, List.mem_flatMap,
    List.mem_singleton, or_comm (b := artifact = .subsystem)]

/-- **Specifications.** Classes that share their guards share their paths, exactly if the keys of
random sequences are guarded against each other. -/
theorem sharesPaths_of_sharesGuards_iff :
    (∀ artifact ∈ spec.artifacts, ∀ other ∈ spec.artifacts,
        artifact.SharesGuards other → artifact.SharesPaths other) ↔
      ∀ sequence ∈ spec.sequences.toList, ∀ other ∈ spec.sequences.toList,
        sequence.kind = .random → other.kind = .random →
          RecordSequence.KeysGuarded sequence.key other.key := by
  constructor
  · intro shared sequence member other alsoMember random alsoRandom
    apply RecordSequence.keysGuarded_of_sharesPaths random alsoRandom
    intro artifact inside another alsoInside
    exact shared artifact (mem_artifacts_iff.mpr (.inr (.inr ⟨_, member, inside⟩)))
      another (mem_artifacts_iff.mpr (.inr (.inr ⟨_, alsoMember, alsoInside⟩)))
  · intro guarded artifact inside other alsoInside shares
    have apart : ¬Artifact.config.SharesGuards .subsystem := fun shares =>
      absurd shares.1 (by decide)
    rcases mem_artifacts_iff.mp inside with rfl | rfl | ⟨sequence, member, inside⟩ <;>
      rcases mem_artifacts_iff.mp alsoInside with rfl | rfl | ⟨another, alsoMember, alsoInside⟩
    · exact ⟨rfl, rfl⟩
    · exact absurd shares apart
    · exact absurd shares (RecordSequence.not_sharesGuards_of_mem alsoInside).1
    · exact absurd shares.symm apart
    · exact ⟨rfl, rfl⟩
    · exact absurd shares (RecordSequence.not_sharesGuards_of_mem alsoInside).2
    · exact absurd shares.symm (RecordSequence.not_sharesGuards_of_mem inside).1
    · exact absurd shares.symm (RecordSequence.not_sharesGuards_of_mem inside).2
    · have random := (RecordSequence.mem_artifacts.mp inside).1
      have alsoRandom := (RecordSequence.mem_artifacts.mp alsoInside).1
      exact RecordSequence.sharesPaths_of_guarded
        (guarded _ member _ alsoMember random alsoRandom)
        (guarded _ alsoMember _ member alsoRandom random) inside alsoInside shares

end Specification

/-- Headers that are guarded by the paths at which they are written. -/
def HeaderPair.Placed (pair : HeaderPair) : Prop :=
  pair.base.path = pair.artifact.basePath ∧ pair.leaf.path = pair.artifact.leafPath

private theorem RecordContext.placed_of_headers {context : RecordContext} {pairs : List HeaderPair}
    (rendered : context.headers = .ok pairs) : ∀ pair ∈ pairs, pair.Placed := by
  obtain ⟨metaPair, record, chain, generator, metaRendered, recordRendered, chainRendered,
    generatorRendered, rfl⟩ := parts_of_headers rendered
  intro pair member
  simp only [List.mem_cons, List.not_mem_nil, or_false] at member
  rcases member with rfl | rfl | rfl | rfl | rfl
  · obtain ⟨_, -, rfl⟩ := bind_pure_eq_ok_iff.mp metaRendered
    exact ⟨rfl, rfl⟩
  · obtain ⟨_, -, rfl⟩ := bind_pure_eq_ok_iff.mp recordRendered
    exact ⟨rfl, rfl⟩
  · exact ⟨rfl, rfl⟩
  · obtain ⟨_, -, chainRendered⟩ := bind_eq_ok_iff.mp chainRendered
    obtain ⟨_, -, chainRendered⟩ := bind_eq_ok_iff.mp chainRendered
    obtain ⟨_, -, rfl⟩ := bind_pure_eq_ok_iff.mp chainRendered
    exact ⟨rfl, rfl⟩
  · obtain ⟨_, -, generatorRendered⟩ := bind_eq_ok_iff.mp generatorRendered
    obtain ⟨_, -, generatorRendered⟩ := bind_eq_ok_iff.mp generatorRendered
    obtain ⟨_, -, rfl⟩ := bind_pure_eq_ok_iff.mp generatorRendered
    exact ⟨rfl, rfl⟩

private theorem Specification.placed_of_plan {spec : Specification .resolved}
    {targetNamespace : String} (linked : spec.Linked) :
    ∀ pair ∈ (spec.plan targetNamespace).headers, pair.Placed := by
  intro pair listed
  rcases mem_headers_cases linked listed with
    rendered | ⟨sequence, -, -, pairs, rendered, inside⟩ | rfl
  · obtain ⟨_, -, rendered⟩ := bind_eq_ok_iff.mp rendered
    obtain ⟨_, -, rfl⟩ := bind_pure_eq_ok_iff.mp rendered
    exact ⟨rfl, rfl⟩
  · exact RecordContext.placed_of_headers rendered pair inside
  · exact ⟨rfl, rfl⟩

/-- **When one header suppresses another.** The headers of a document that is compiled are guarded by
the paths of its classes. Headers at different paths have different guards exactly if every two random
sequences have keys that are guarded against each other. -/
theorem compile_guards_distinct_iff {store after : MemoryStore} {targetNamespace text : String}
    {report : Report} (compiled : compileInMemory store targetNamespace text = (.ok report, after)) :
    ∃ spec, readDocument text = .ok spec ∧
      (spec.plan targetNamespace).headers.map HeaderPair.artifact = spec.artifacts ∧
      (∀ pair ∈ (spec.plan targetNamespace).headers, pair.Placed) ∧
      ((∀ path ∈ spec.artifacts.flatMap Artifact.files,
          ∀ other ∈ spec.artifacts.flatMap Artifact.files,
            path ≠ other → includeGuard path ≠ includeGuard other) ↔
        ∀ sequence ∈ spec.sequences.toList, ∀ other ∈ spec.sequences.toList,
          sequence.kind = .random → other.kind = .random →
            RecordSequence.KeysGuarded sequence.key other.key) := by
  obtain ⟨spec, read, headers, -, -⟩ := exists_plan_of_compiled compiled
  have plain : ∀ artifact ∈ spec.artifacts, artifact.IsPlain :=
    fun _ => Specification.isPlain_of_mem_artifacts
  refine ⟨spec, read, headers, Specification.placed_of_plan (linked_of_readDocument read), ?_⟩
  exact (Artifact.guards_distinct_iff plain).trans Specification.sharesPaths_of_sharesGuards_iff

namespace Prototype.Sample

private theorem guarded_iff_of_bareKeys {spec : Specification .resolved} {keys : List String}
    (found : bareKeys spec = some keys) :
    (∀ sequence ∈ spec.sequences.toList, ∀ other ∈ spec.sequences.toList,
        sequence.kind = .random → other.kind = .random →
          RecordSequence.KeysGuarded sequence.key other.key) ↔
      ∀ key ∈ keys, ∀ other ∈ keys, RecordSequence.KeysGuarded key other := by
  obtain ⟨bare, rfl⟩ := bareKeys_eq_some_iff.mp found
  rw [List.forall_mem_map]
  refine forall₂_congr fun sequence member => ?_
  rw [List.forall_mem_map]
  refine forall₂_congr fun other alsoMember => ?_
  rw [imp_iff_right (RecordSequence.random_of_isBare (bare _ member)),
    imp_iff_right (RecordSequence.random_of_isBare (bare _ alsoMember))]

set_option maxRecDepth 100000 in
private theorem exists_items_and_order_items :
    ∃ spec report after, readDocument (bareText ["order_item", "orderitem"]) = .ok spec ∧
      bareKeys spec = some ["order_item", "orderitem"] ∧
      compileInMemory {} "Shop" (bareText ["order_item", "orderitem"]) = (.ok report, after) := by
  refine exists_bareKeys_compiled ?_ ?_ {} "Shop"
  · rw [Markup.parse, Markup.scan, bareText, String.toList_ofList]
    rfl
  · cbv

end Prototype.Sample

section

open Prototype.Sample

/-- Headers for orders and items have guards of their own. -/
theorem orders_and_items_guarded :
    ∃ spec report after, readDocument (bareText ["order", "item"]) = .ok spec ∧
      compileInMemory {} "Shop" (bareText ["order", "item"]) = (.ok report, after) ∧
      ∀ path ∈ spec.artifacts.flatMap Artifact.files,
        ∀ other ∈ spec.artifacts.flatMap Artifact.files,
          path ≠ other → includeGuard path ≠ includeGuard other := by
  obtain ⟨spec, report, after, read, found, compiled⟩ := exists_orders_and_items
  obtain ⟨other, again, -, -, distinct⟩ := compile_guards_distinct_iff compiled
  obtain rfl := Except.ok.inj (read.symm.trans again)
  have guarded := (guarded_iff_of_bareKeys found).mpr (by decide)
  exact ⟨spec, report, after, read, compiled, distinct.mpr guarded⟩

/-- The keys `order_item` and `orderitem` give rise to headers at different paths with one guard. -/
theorem order_items_share_guards :
    ∃ spec report after, readDocument (bareText ["order_item", "orderitem"]) = .ok spec ∧
      compileInMemory {} "Shop" (bareText ["order_item", "orderitem"]) = (.ok report, after) ∧
      "record/OrderItem.h" ∈ spec.artifacts.flatMap Artifact.files ∧
      "record/Orderitem.h" ∈ spec.artifacts.flatMap Artifact.files ∧
      includeGuard "record/OrderItem.h" = includeGuard "record/Orderitem.h" := by
  obtain ⟨spec, report, after, read, found, compiled⟩ := exists_items_and_order_items
  obtain ⟨bare, keys⟩ := bareKeys_eq_some_iff.mp found
  have leaf : ∀ key ∈ ["order_item", "orderitem"],
      (Artifact.ofRecord .record key).leafPath ∈ spec.artifacts.flatMap Artifact.files := by
    intro key listed
    rw [← keys] at listed
    obtain ⟨sequence, member, rfl⟩ := List.mem_map.mp listed
    have random := RecordSequence.random_of_isBare (bare sequence member)
    have record := RecordSequence.mem_artifacts.mpr ⟨random, .record, by decide, rfl⟩
    exact List.mem_flatMap.mpr
      ⟨_, Specification.mem_artifacts_iff.mpr (.inr (.inr ⟨sequence, member, record⟩)),
        by simp [Artifact.files]⟩
  refine ⟨spec, report, after, read, compiled, ?_, ?_, by decide⟩
  · exact leaf "order_item" (by decide)
  · exact leaf "orderitem" (by decide)

end

end Recordgen
