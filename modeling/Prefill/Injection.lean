import Prefill.Fill
import Prefill.Go.Closure
import Prefill.Go.ImportTable
import Prefill.Project
import Prefill.Region

/-!
Injection of helpers. A marker above an interface asks for one of its methods: the helper function
of that name is copied into a region after the interface, together with all that it needs. Regions
from an earlier run are taken out first, so a second run gives the same text.
-/

namespace Prefill

open Text

/-- Why nothing is injected into a file. -/
inductive InjectionError where
  | notAnInterface (line : Nat) (method : Text)
  | methodNotInInterface (line : Nat) (method interface : Text) (methods : List Text)
  | unterminated (region : Unterminated)
  deriving DecidableEq, Repr

namespace InjectionError

/-- The line it is about. -/
def line : InjectionError → Nat
  | .notAnInterface line _ => line
  | .methodNotInInterface line _ _ _ => line
  | .unterminated region => region.line

def message : InjectionError → String
  | .notAnInterface _ method =>
    let method := quoted method
    s!"injection marker for {method} must be followed by an interface type declaration"
  | .methodNotInInterface _ method interface methods =>
    s!"interface {str interface} has no method {quoted method} " ++
      "(it declares: " ++ str (joinWith ", " methods) ++ ")"
  | .unterminated region => s!"generated region for {quoted region.method} has no end marker"

end InjectionError

/-- A file after injection, and how many regions it has. -/
structure Injected where
  text : Text
  regions : Nat
  deriving DecidableEq, Repr

namespace Injection

/-- A marker that asks for a method: the index of its line, and the line. -/
structure Request where
  index : Nat
  method : Text
  line : Text
  deriving DecidableEq, Repr

/-- The markers among lines. -/
def requests (lines : List Text) : List Request :=
  lines.zipIdx.filterMap fun (line, index) =>
    match Marker.classify? line with
    | some (.injection method) => some ⟨index, method, line⟩
    | _ => none

/-- Whether a line holds code. -/
def isCode (line : Text) : Bool :=
  let body := trim line
  !body.isEmpty && !startsWith "//" body

/-- The index of the first line with code after the given one. -/
def nextCode? (lines : List Text) (index : Nat) : Option Nat :=
  ((lines.drop (index + 1)).findIdx? isCode).map (index + 1 + ·)

/-- The interface below a marker, which has to have the method. -/
def interfaceFor (target : Go.Source) (lines : List Text) (request : Request) :
    Except InjectionError Go.Interface :=
  match (nextCode? lines request.index).bind fun index => target.interfaceAt? (index + 1) with
  | none => .error (.notAnInterface (request.index + 1) request.method)
  | some interface =>
    if interface.methods.contains request.method then .ok interface
    else
      .error (.methodNotInInterface (request.index + 1) request.method interface.name
        interface.methods)

/-- What has been written so far: the keys that are taken, and the imports to add. -/
structure Written where
  keys : List Text
  imports : Go.ImportTable

/-- The declarations copied for one marker. -/
structure Copied where
  written : Written
  parts : List Text

/-- Makes a package known that a copied declaration refers to. The file has to import it under the
same name; an import of another package under that name stays, with a warning. -/
def useImport {ε : Type} (site : Fill.Site) (target helper : Go.Source) (method : Text)
    (imports : Go.ImportTable) (qualifier : Text) : Journal ε Go.ImportTable :=
  match helper.import? qualifier with
  | none => pure imports
  | some needed =>
    if needed.label = some ['_'] || needed.label = some ['.'] then pure imports
    else
      match target.import? qualifier with
      | none => pure (imports.add qualifier (.named qualifier needed.path))
      | some present =>
        if present.path = needed.path then pure imports
        else do
          .tell (.warning site.file present.span.start.line
            (s!"{str method} needs {str needed.path} as {quoted qualifier}, " ++
              s!"but this file imports {str present.path} under that name") none)
          return imports

/-- Copies a declaration, unless the file has one of its keys already. -/
def copyDeclaration {ε : Type} (site : Fill.Site) (target helper : Go.Source) (method : Text)
    (copied : Copied) (d : Go.Declaration) : Journal ε Copied :=
  if d.keys.any copied.written.keys.contains then pure copied
  else do
    let imports ← d.qualifiers.foldlM (useImport site target helper method) copied.written.imports
    return ⟨⟨copied.written.keys ++ d.keys, imports⟩, copied.parts ++ [d.withDoc]⟩

/-- The helper file that a method comes from, and the index of the function there. -/
def helperFor? (project : Project) (depth : Nat) (method : Text) : Option (HelperFile × Nat) := do
  let symbol ← project.index.lookup? method depth
  let file ← project.helperFile? symbol.path
  let root ← file.source.declarations.findIdx? fun d => d.isFunction method
  return (file, root)

/-- The state of a file between two markers. -/
structure Progress where
  written : Written
  insertions : List Region.Insertion

/-- Answers one marker. -/
def answer (project : Project) (site : Fill.Site) (target : Go.Source) (lines : List Text)
    (progress : Progress) (request : Request) : Journal InjectionError Progress := do
  let interface ← .ofExcept (interfaceFor target lines request)
  match helperFor? project site.depth request.method with
  | none =>
    .tell (.warning site.file (request.index + 1)
      (s!"no exported helper named {quoted request.method} is visible here; nothing injected")
      (some request.line))
    return progress
  | some (file, root) =>
    let needed := (file.source.closure root).filterMap fun i => file.source.declarations[i]?
    let copied ← needed.foldlM (copyDeclaration site target file.source request.method)
      ⟨progress.written, []⟩
    .tell (.note
      s!"{site.file}: injecting {copied.parts.length} declarations for {str request.method}")
    let insertion := ⟨interface.span.stop.line - 1, Region.linesOf request.method copied.parts⟩
    return ⟨copied.written, progress.insertions ++ [insertion]⟩

/-- Puts imports after the head of a file. -/
def addImports (target : Go.Source) (imports : Go.ImportTable) (lines : List Text) : List Text :=
  if imports.isEmpty then lines
  else
    let count := min target.preambleEnd lines.length
    let space := if target.imports.isEmpty then [['\n']] else []
    let block := imports.specs.map fun spec => "import ".toList ++ spec.render ++ ['\n']
    Region.terminateLast (lines.take count) ++ space ++ block ++ lines.drop count

/-- Answers all markers of a text without regions. -/
def applyMarkers (project : Project) (site : Fill.Site) (stripped : Text) :
    Journal InjectionError Injected := do
  let lines := rawLines stripped
  match requests lines with
  | [] => return ⟨stripped, 0⟩
  | requests =>
    let target := Go.Source.ofText stripped
    let start := ⟨⟨target.declarations.flatMap (·.keys), []⟩, []⟩
    let progress ← requests.foldlM (answer project site target lines) start
    let spliced := Region.spliceAll lines progress.insertions
    return ⟨(addImports target progress.written.imports spliced).flatten,
      progress.insertions.length⟩

/-- The qualifiers that a file uses. -/
def usedQualifiers (source : Go.Source) : List Text :=
  source.declarations.flatMap (·.qualifiers)

/-- Warns of imports that only the regions taken out had used. -/
def staleImports (site : Fill.Site) (before after : Text) : List Event :=
  let source := Go.Source.ofText after
  let usedBefore := usedQualifiers (.ofText before)
  let usedAfter := usedQualifiers source
  let stale := source.imports.filter fun i =>
    usedBefore.contains i.localName && !usedAfter.contains i.localName
  stale.map fun i =>
    .warning site.file i.span.start.line
      (s!"import {quoted i.path} is no longer used by generated code; remove it") none

/-- Injects what the markers of a file ask for. -/
def inject (project : Project) (site : Fill.Site) (content : Text) :
    Journal InjectionError Injected := do
  if !Marker.anyInjectionIn content && !Marker.anyRegionIn content then return ⟨content, 0⟩
  else
    let stripped ← .ofExcept ((Region.strip content).mapError .unterminated)
    let injected ← applyMarkers project site stripped
    if Marker.anyRegionIn content then ⟨staleImports site content injected.text, .ok ()⟩
    return injected

end Injection

end Prefill
