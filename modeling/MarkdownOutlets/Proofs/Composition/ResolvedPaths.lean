import MarkdownOutlets.Composition.Compose
import MarkdownOutlets.Proofs.Composition.SourcePaths
import MarkdownOutlets.Proofs.Source.MemoryPaths

/-! # Documents with resolved paths

  A source in memory takes what it has once made of a path as it is. So the paths
  of a document may be resolved before it is composed, when each of them is
  relative to the base or the working directory: the options that say what paths
  are relative to do not matter any more (`Engine.document_resolved`).

  The main statement, `memory_resolution`, puts this beside the laws of resolving
  paths that it comes from.
-/

namespace MarkdownOutlets

open MemorySource FilePath

/-- The document with each path resolved against the base or the working directory. -/
def Document.resolved (cwd : Text) (base : Option Text) (d : Document) : Document :=
  d.mapPaths fun path => resolve cwd path base .cwd

/-- Options with something else that paths are relative to. -/
def Options.relativeTo (o : Options) (base : Option Text) (mode : ResolveFrom) : Options :=
  { o with basePath := base, resolveFrom := mode }

namespace Engine

/-- Relative to the base, a path has the same source wherever it stands. -/
theorem sourcePath_of_cwd (resolve : Resolver) {o : Options} (mode : o.resolveFrom = .cwd)
    (path : Text) (document : Option Text) :
    sourcePath resolve o path document = resolve path o.basePath .cwd := by
  unfold sourcePath
  rw [mode]

/-- A canonical path is its own source, whatever paths are relative to. -/
theorem sourcePath_of_isCanonical (cwd : Text) (o : Options) {path : Text}
    (canonical : MemorySource.IsCanonical path) (document : Option Text) :
    sourcePath (resolve cwd) o path document = path := by
  unfold sourcePath
  split
  · exact resolve_of_isCanonical canonical cwd _ .file
  · exact resolve_of_isCanonical canonical cwd _ .cwd

/-- The document with resolved paths has the process of the document. -/
theorem document_resolved (cwd : Text) {o : Options} (mode : o.resolveFrom = .cwd) (d : Document)
    (base : Option Text) (mode' : ResolveFrom) :
    document (resolve cwd) (o.relativeTo base mode') (d.resolved cwd o.basePath) =
      document (resolve cwd) o d := by
  have rules : Rules.ofOptions (o.relativeTo base mode') = Rules.ofOptions o := rfl
  refine document_mapPaths rules d fun path _ around => ?_
  rw [sourcePath_of_cwd (resolve cwd) mode]
  exact sourcePath_of_isCanonical cwd _ (isCanonical_resolve cwd path o.basePath .cwd) around

end Engine

/-- What it means to resolve paths of sources in memory. -/
structure MemoryResolution (cwd : Text) : Prop where
  /-- The source of a path is a slash and names with slashes between them, none of which is
      empty or a step to the directory itself or to the one above. -/
  canonical : ∀ path base mode, MemorySource.IsCanonical (resolve cwd path base mode)
  /-- It is its own source, whatever it may be relative to. -/
  settled : ∀ path base mode cwd' base' mode',
    resolve cwd' (resolve cwd path base mode) base' mode' = resolve cwd path base mode
  /-- The first part of a path may be made canonical before the rest is added. -/
  append : ∀ a b, MemorySource.canonical (a ++ '/' :: b) =
    MemorySource.canonical (MemorySource.canonical a ++ '/' :: b)
  /-- A relative path may be resolved in what the path in front of it means. -/
  twoSteps : ∀ a b base mode, a ≠ [] → b.head? ≠ some '/' →
    resolve cwd b (some (resolve cwd a base mode)) .cwd = resolve cwd (a ++ '/' :: b) base mode
  /-- The step to the directory above takes the last name back, and stays at the root. -/
  floor : ∀ t, namesOf (MemorySource.canonical (t ++ '/' :: up)) =
    (namesOf (MemorySource.canonical t)).dropLast
  /-- A document may have its paths resolved before it is composed: the same is asked, and
      the same follows from each answer, whatever paths are relative to then. -/
  process : ∀ (d : Document) (o : Options), o.resolveFrom = .cwd → ∀ base mode,
    Engine.document (resolve cwd) (o.relativeTo base mode) (d.resolved cwd o.basePath) =
      Engine.document (resolve cwd) o d
  /-- So the composition ends in the same way, and leaves the same cache and journal. -/
  composed : ∀ {m : Type → Type} [Monad m] (h : Host m), h.resolve = resolve cwd →
    ∀ (d : Document) (o : Options), o.resolveFrom = .cwd → ∀ base mode shared,
      h.composeDocument (d.resolved cwd o.basePath) (o.relativeTo base mode) shared =
        h.composeDocument d o shared

/-- Paths of sources in memory may be resolved at once or in steps, and before or while a
    document is composed. -/
theorem memory_resolution (cwd : Text) : MemoryResolution cwd := by
  constructor
  case canonical => exact isCanonical_resolve cwd
  case settled =>
    intro path base mode cwd' base' mode'
    exact resolve_of_isCanonical (isCanonical_resolve cwd path base mode) cwd' base' mode'
  case append => exact canonical_append
  case twoSteps =>
    intro a b base mode nonempty relative
    exact resolve_in_resolved nonempty relative cwd base mode
  case floor => exact namesOf_canonical_up
  case process =>
    intro d o in_cwd base mode
    exact Engine.document_resolved cwd in_cwd d base mode
  case composed =>
    intro m _ h resolves d o in_cwd base mode shared
    unfold Host.composeDocument
    rw [resolves, Engine.document_resolved cwd in_cwd d base mode]
    rfl

end MarkdownOutlets
