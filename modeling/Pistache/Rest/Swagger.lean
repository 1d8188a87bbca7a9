import Pistache.Lib.AbsolutePath
import Pistache.Rest.Router

/-!
# The files of Swagger UI

The handler that `Swagger::install` adds serves `index.html` of its directory for the UI path,
and for a resource that begins with the UI path the file that the rest of it names.  The name is
made canonical and compared with the directory as a text.

* `served_inside` — exactly when every file that is served lies in the directory.
-/

set_option autoImplicit false

namespace Pistache.Rest

open Http AbsolutePath

/-! ## Files -/

/-- A path from the root, without links, `.` and `..`. -/
structure RealPath where
  components : List Bytes
  names : Components slash components

/-- `filesystem::path::string`. -/
def RealPath.string (path : RealPath) : Bytes := text slash path.components

/-- The directory is a whole-component prefix of the path. -/
def RealPath.Inside (dir path : RealPath) : Prop := dir.components <+: path.components

/-- `filesystem::canonical` gives the real path of what a name leads to, or throws where it
leads nowhere.  A real path leads to itself. -/
structure FileSystem where
  canonical : Bytes → Option RealPath
  canonical_string : ∀ name real, canonical name = some real →
    canonical real.string = some real

/-- The names that lead somewhere, with their real paths. -/
def FileSystem.ofNames (names : List (Bytes × RealPath))
    (h : ∀ e ∈ names, (names.find? (·.1 = e.2.string)).map (·.2) = some e.2) : FileSystem where
  canonical name := (names.find? (·.1 = name)).map (·.2)
  canonical_string name real hname := by
    obtain ⟨e, he, rfl⟩ := Option.map_eq_some_iff.mp hname
    exact h e (List.mem_of_find?_eq_some he)

/-! ## The local `Path` -/

structure Path where
  value : Bytes
  trailingSlashValue : Bytes
  deriving DecidableEq, Repr

namespace Path

def new (value : Bytes) : Path where
  value := value
  trailingSlashValue := if value = [] ∨ value.getLast? ≠ some slash then value ++ [slash] else value

def hasTrailingSlash (resource : Bytes) : Bool := resource.getLast? = some slash

def isPrefix (path : Path) (resource : Bytes) : Bool := path.value <+: resource

def stripPrefix (path : Path) (resource : Bytes) : Bytes :=
  if path.isPrefix resource then resource.drop path.value.length else resource

/-- `matches`. -/
def matchesResource (path : Path) (resource : Bytes) : Bool :=
  path.value = resource ∨ resource = path.trailingSlashValue

def join (path : Path) (value : Bytes) : Bytes :=
  path.trailingSlashValue ++ if value.head? = some slash then value.drop 1 else value

end Path

/-! ## `Swagger` -/

structure Swagger where
  uiPath_ : Bytes
  uiDirectory_ : Bytes
  apiPath_ : Bytes
  deriving DecidableEq, Repr

/-- What the handler sends. -/
inductive Answer where
  | moved (location : Bytes)
  | serveFile (fileName : Bytes)
  | notFound
  | description
  | nothing
  deriving DecidableEq, Repr

/-- What `filesystem::canonical` throws. -/
structure FilesystemError where
  path : Bytes
  deriving DecidableEq, Repr

namespace Swagger

/-- `Swagger::uiDirectory`. -/
def uiDirectory (fs : FileSystem) (dir : Bytes) (swagger : Swagger) :
    Except FilesystemError Swagger :=
  match fs.canonical dir with
  | some real => .ok { swagger with uiDirectory_ := real.string }
  | none => .error ⟨dir⟩

/-- The `uiHandler` of `Swagger::install`. -/
def uiHandler (fs : FileSystem) (swagger : Swagger) (resource : Bytes) :
    Except FilesystemError (Answer × Result) :=
  let ui := Path.new swagger.uiPath_
  let uiDir := Path.new swagger.uiDirectory_
  if ui.matchesResource resource then
    if ¬Path.hasTrailingSlash resource then .ok (.moved (swagger.uiPath_ ++ lit "/"), .Ok)
    else .ok (.serveFile (uiDir.join (lit "index.html")), .Ok)
  else if ui.isPrefix resource then
    let file := ui.stripPrefix resource
    match fs.canonical (uiDir.join file) with
    | none => .error ⟨uiDir.join file⟩
    | some path =>
      if swagger.uiDirectory_ <+: path.string then .ok (.serveFile path.string, .Ok)
      else .ok (.notFound, .Failure)
  else if resource = swagger.apiPath_ then .ok (.description, .Ok)
  else .ok (.nothing, .Failure)

/-- A file is served: the one at a real path that the name given to `serveFile` leads to. -/
def Serves (fs : FileSystem) (swagger : Swagger) (resource : Bytes) (real : RealPath) : Prop :=
  ∃ fileName result, swagger.uiHandler fs resource = .ok (.serveFile fileName, result) ∧
    fs.canonical fileName = some real

/-! ## What is served -/

section Served

variable {fs : FileSystem} {swagger : Swagger} {resource : Bytes}

/-- The index page is served without a look at where it leads. -/
theorem serves_index (hui : (Path.new swagger.uiPath_).matchesResource resource = true)
    (hslash : Path.hasTrailingSlash resource = true) (real : RealPath) :
    swagger.Serves fs resource real ↔
      fs.canonical ((Path.new swagger.uiDirectory_).join (lit "index.html")) = some real := by
  have hanswer : swagger.uiHandler fs resource =
      .ok (.serveFile ((Path.new swagger.uiDirectory_).join (lit "index.html")), .Ok) := by
    simp only [uiHandler, hui, hslash, if_true, not_true_eq_false, if_false]
  unfold Serves
  rw [hanswer]
  constructor
  · rintro ⟨fileName, result, heq, hreal⟩
    obtain ⟨h, -⟩ := Prod.mk.inj (Except.ok.inj heq)
    obtain rfl := Answer.serveFile.inj h
    exact hreal
  · exact fun hreal => ⟨_, _, rfl, hreal⟩

/-- A file is served if the text of its real path begins with that of the directory. -/
theorem serves_file (hui : (Path.new swagger.uiPath_).matchesResource resource = false)
    (hunder : (Path.new swagger.uiPath_).isPrefix resource = true) (real : RealPath) :
    swagger.Serves fs resource real ↔
      fs.canonical ((Path.new swagger.uiDirectory_).join
        ((Path.new swagger.uiPath_).stripPrefix resource)) = some real ∧
      swagger.uiDirectory_ <+: real.string := by
  unfold Serves uiHandler
  simp only [hui, hunder, Bool.false_eq_true, if_false, if_true]
  cases hcanonical : fs.canonical ((Path.new swagger.uiDirectory_).join
      ((Path.new swagger.uiPath_).stripPrefix resource)) with
  | none => simp
  | some path =>
    have hself := fs.canonical_string _ path hcanonical
    by_cases hinside : swagger.uiDirectory_ <+: path.string
    · simp only [hinside, if_true]
      constructor
      · rintro ⟨fileName, result, heq, hreal⟩
        obtain ⟨h, -⟩ := Prod.mk.inj (Except.ok.inj heq)
        obtain rfl := Answer.serveFile.inj h
        obtain rfl := Option.some.inj (hself.symm.trans hreal)
        exact ⟨rfl, hinside⟩
      · rintro ⟨heq, -⟩
        obtain rfl := Option.some.inj heq
        exact ⟨_, _, rfl, hself⟩
    · simp only [hinside, if_false]
      constructor
      · rintro ⟨fileName, result, heq, -⟩
        obtain ⟨h, -⟩ := Prod.mk.inj (Except.ok.inj heq)
        cases h
      · rintro ⟨heq, h⟩
        obtain rfl := Option.some.inj heq
        exact absurd h hinside

/-- Nothing else is a file. -/
theorem not_serves {real : RealPath} (h : swagger.Serves fs resource real) :
    ((Path.new swagger.uiPath_).matchesResource resource = true ∧
      Path.hasTrailingSlash resource = true) ∨
    ((Path.new swagger.uiPath_).matchesResource resource = false ∧
      (Path.new swagger.uiPath_).isPrefix resource = true) := by
  obtain ⟨fileName, result, heq, -⟩ := h
  cases hui : (Path.new swagger.uiPath_).matchesResource resource with
  | true =>
    cases hslash : Path.hasTrailingSlash resource with
    | true => exact .inl ⟨rfl, rfl⟩
    | false => simp [uiHandler, hui, hslash] at heq
  | false =>
    cases hunder : (Path.new swagger.uiPath_).isPrefix resource with
    | true => exact .inr ⟨rfl, rfl⟩
    | false =>
      simp only [uiHandler, hui, hunder, Bool.false_eq_true, if_false] at heq
      split at heq
      · simp at heq
      · simp at heq

end Served

/-- **Only files of the directory are served**, exactly when the index page does not lead out of
it and the file that a resource names does not lie beside it, under a name that goes on from the
directory's own. -/
theorem served_inside (fs : FileSystem) (dir : Bytes) (swagger₀ swagger : Swagger)
    (hset : swagger₀.uiDirectory fs dir = .ok swagger) (resource : Bytes) :
    ∃ real, fs.canonical dir = some real ∧
      ((∀ file, swagger.Serves fs resource file → real.Inside file) ↔
        ((Path.new swagger.uiPath_).matchesResource resource = true →
          Path.hasTrailingSlash resource = true →
          ∀ file, fs.canonical ((Path.new swagger.uiDirectory_).join (lit "index.html")) =
            some file → real.Inside file) ∧
        ((Path.new swagger.uiPath_).matchesResource resource = false →
          (Path.new swagger.uiPath_).isPrefix resource = true →
          ∀ file, fs.canonical ((Path.new swagger.uiDirectory_).join
              ((Path.new swagger.uiPath_).stripPrefix resource)) = some file →
            ¬Beside real.components file.components)) := by
  unfold uiDirectory at hset
  cases hreal : fs.canonical dir with
  | none =>
    rw [hreal] at hset
    cases hset
  | some real =>
    rw [hreal] at hset
    obtain rfl := Except.ok.inj hset
    refine ⟨real, rfl, ?_, ?_⟩
    · intro h
      refine ⟨fun hui hslash file hfile => h file ((serves_index hui hslash file).mpr hfile), ?_⟩
      intro hui hunder file hfile hbeside
      have htext : real.string <+: file.string :=
        (text_isPrefix real.names file.names).mpr (.inr hbeside)
      exact not_isPrefix_of_beside hbeside
        (h file ((serves_file hui hunder file).mpr ⟨hfile, htext⟩))
    · rintro ⟨hindex, hnames⟩ file hserves
      rcases not_serves hserves with ⟨hui, hslash⟩ | ⟨hui, hunder⟩
      · exact hindex hui hslash file ((serves_index hui hslash file).mp hserves)
      · obtain ⟨hfile, htext⟩ := (serves_file hui hunder file).mp hserves
        rcases (text_isPrefix real.names file.names).mp htext with h | h
        · exact h
        · exact absurd h (hnames hui hunder file hfile)

/-! ## A directory beside the directory -/

/-- `/srv/ui`, and a file in `/srv/ui-private`. -/
def ui : RealPath := ⟨[lit "srv", lit "ui"], by unfold Components; decide⟩

def key : RealPath := ⟨[lit "srv", lit "ui-private", lit "key"], by unfold Components; decide⟩

def twoDirectories : FileSystem :=
  .ofNames [(lit "/srv/ui", ui), (lit "/srv/ui/../ui-private/key", key),
    (lit "/srv/ui-private/key", key)] (by
      simp only [List.mem_cons, List.not_mem_nil, or_false, forall_eq_or_imp, forall_eq]
      exact ⟨rfl, rfl, rfl⟩)

/-- Swagger UI at `/doc`, with the directory `/srv/ui`. -/
def documented : Swagger := ⟨lit "/doc", lit "/srv/ui", lit "/api"⟩

/-- The resource `/doc/../ui-private/key` is served. -/
theorem served_beside : (⟨lit "/doc", [], lit "/api"⟩ : Swagger).uiDirectory twoDirectories
      (lit "/srv/ui") = .ok documented ∧
    documented.Serves twoDirectories (lit "/doc/../ui-private/key") key ∧ ¬ui.Inside key := by
  refine ⟨rfl, ⟨lit "/srv/ui-private/key", .Ok, rfl, rfl⟩, ?_⟩
  unfold RealPath.Inside
  decide

theorem served_inside_documented :
    ∃ real, twoDirectories.canonical (lit "/srv/ui") = some real ∧
      ((∀ file, documented.Serves twoDirectories (lit "/doc/") file → real.Inside file) ↔
        ((Path.new documented.uiPath_).matchesResource (lit "/doc/") = true →
          Path.hasTrailingSlash (lit "/doc/") = true →
          ∀ file, twoDirectories.canonical
              ((Path.new documented.uiDirectory_).join (lit "index.html")) = some file →
            real.Inside file) ∧
        ((Path.new documented.uiPath_).matchesResource (lit "/doc/") = false →
          (Path.new documented.uiPath_).isPrefix (lit "/doc/") = true →
          ∀ file, twoDirectories.canonical ((Path.new documented.uiDirectory_).join
              ((Path.new documented.uiPath_).stripPrefix (lit "/doc/"))) = some file →
            ¬Beside real.components file.components)) :=
  served_inside twoDirectories (lit "/srv/ui") ⟨lit "/doc", [], lit "/api"⟩ documented rfl
    (lit "/doc/")

end Swagger

end Pistache.Rest
