import Chdkptp.DependencyOrder
import Chdkptp.LuaText
import Chdkptp.LuaUtil

/-!
# Remote libraries

`rlibs` keeps chunks of camera code by name. `con:exec` puts the default libraries and
those of its options before the code it sends. The names come from tables that are
merged key by key.
-/

namespace Rlibs

open LuaValue LuaText LuaUtil DependencyOrder

structure Lib where
  name : LuaString
  depend : List LuaString
  code : LuaString
  deriving DecidableEq

/-- `rlibs.libs`. -/
structure Registry where
  libs : Fields LuaString Lib
  named : ∀ n lib, libs.lookup n = some lib → lib.name = n

inductive BuildError where
  | unknownLib (name : LuaString)
  /-- The nested calls of `build_single` overflow the stack. -/
  | stackOverflow
  deriving DecidableEq

/-- The object that `rlibs:build` returns. -/
structure Build where
  list : List Lib
  map : Fields LuaString Lib

/-- `rlibs:build_single`, whose calls may be nested that deep. -/
def buildSingle (rlibs : Registry) : Nat → Build → LuaString → Except BuildError Build
  | 0, _, _ => .error .stackOverflow
  | limit + 1, build, name =>
    match rlibs.libs.lookup name with
    | none => .error (.unknownLib name)
    | some lib =>
      if (build.map.lookup name).isSome then .ok build
      else (lib.depend.foldlM (buildSingle rlibs limit) build).map fun build =>
        { list := build.list ++ [lib], map := build.map.insert name lib }

inductive RegisterError where
  | missingDep (name dep : LuaString)
  deriving DecidableEq

theorem named_insert (rlibs : Registry) (t : Lib) (n : LuaString) (lib : Lib)
    (h : (rlibs.libs.insert t.name t).lookup n = some lib) : lib.name = n := by
  by_cases hn : n = t.name
  · subst hn
    rw [AList.lookup_insert] at h
    cases h
    rfl
  · rw [AList.lookup_insert_ne hn] at h
    exact rlibs.named n lib h

def Registry.insert (rlibs : Registry) (t : Lib) : Registry :=
  ⟨rlibs.libs.insert t.name t, named_insert rlibs t⟩

theorem named_empty (n : LuaString) (lib : Lib)
    (h : (∅ : Fields LuaString Lib).lookup n = some lib) : lib.name = n := by cases h

def emptyRegistry : Registry := ⟨∅, named_empty⟩

/-- `rlibs:register` of a library with a list of dependencies. -/
def register (rlibs : Registry) (t : Lib) : Except RegisterError Registry :=
  match t.depend.find? fun v => (rlibs.libs.lookup v).isNone with
  | some v => .error (.missingDep t.name v)
  | none => .ok (rlibs.insert t)

/-- `rlibs:build` of a list of names. -/
def build (rlibs : Registry) (limit : Nat) (libnames : List LuaString) : Except BuildError Build :=
  libnames.foldlM (buildSingle rlibs limit) { list := [], map := ∅ }

/-- `rlib_get_code`. -/
def rlibGetCode (build : Build) : LuaString :=
  build.list.foldl (fun code lib => code ++ lib.code ++ [10]) []

theorem rlibGetCode_eq (build : Build) :
    rlibGetCode build = build.list.flatMap fun lib => lib.code ++ [10] := by
  simp [rlibGetCode, List.flatMap_def]

/-! ## The names of a build -/

/-- The dependencies that a registry knows of. -/
def Registry.depend (rlibs : Registry) (name : LuaString) : Option (List LuaString) :=
  (rlibs.libs.lookup name).map Lib.depend

def toAddError : BuildError → AddError LuaString
  | .unknownLib name => .unknown name
  | .stackOverflow => .tooDeep

/-- The list holds the registered libraries of these names, and the map the same names. -/
structure Represents (rlibs : Registry) (build : Build) (built : List LuaString) : Prop where
  names : build.list.map Lib.name = built
  listed : ∀ lib ∈ build.list, rlibs.libs.lookup lib.name = some lib
  mapped : ∀ name, (build.map.lookup name).isSome ↔ name ∈ built

/-- Both fail alike, or the results are related. -/
def Simulates (rlibs : Registry) :
    Except BuildError Build → Except (AddError LuaString) (List LuaString) → Prop
  | .ok build, .ok built => Represents rlibs build built
  | .error e, .error e' => toAddError e = e'
  | _, _ => False

theorem represents_empty (rlibs : Registry) : Represents rlibs ⟨[], ∅⟩ [] where
  names := rfl
  listed := by simp
  mapped := by simp

theorem Simulates.bind {rlibs : Registry} {x : Except BuildError Build}
    {y : Except (AddError LuaString) (List LuaString)} (h : Simulates rlibs x y)
    {f : Build → Except BuildError Build}
    {g : List LuaString → Except (AddError LuaString) (List LuaString)}
    (hfg : ∀ build built, Represents rlibs build built → Simulates rlibs (f build) (g built)) :
    Simulates rlibs (x >>= f) (y >>= g) := by
  cases x with
  | error e =>
    cases y with
    | error e' => exact h
    | ok built => exact h.elim
  | ok build =>
    cases y with
    | error e' => exact h.elim
    | ok built => exact hfg build built h

theorem foldlM_simulates {rlibs : Registry}
    {f : Build → LuaString → Except BuildError Build}
    {g : List LuaString → LuaString → Except (AddError LuaString) (List LuaString)}
    (hfg : ∀ build built name, Represents rlibs build built →
      Simulates rlibs (f build name) (g built name))
    (names : List LuaString) (build : Build) (built : List LuaString)
    (h : Represents rlibs build built) :
    Simulates rlibs (names.foldlM f build) (names.foldlM g built) := by
  induction names generalizing build built with
  | nil => exact h
  | cons name names ih =>
    rw [List.foldlM_cons, List.foldlM_cons]
    exact (hfg build built name h).bind ih

theorem Represents.insert {rlibs : Registry} {build : Build} {built : List LuaString}
    (h : Represents rlibs build built) {name : LuaString} {lib : Lib}
    (hlib : rlibs.libs.lookup name = some lib) :
    Represents rlibs ⟨build.list ++ [lib], build.map.insert name lib⟩ (built ++ [name]) where
  names := by simp [h.names, rlibs.named name lib hlib]
  listed := by
    intro l hl
    rcases List.mem_append.mp hl with hl | hl
    · exact h.listed l hl
    · obtain rfl : l = lib := by simpa using hl
      rwa [rlibs.named name l hlib]
  mapped := by
    intro n
    rw [AList.lookup_isSome, AList.mem_insert, ← AList.lookup_isSome, h.mapped,
      List.mem_append, List.mem_singleton, or_comm]

/-- `build_single` adds names behind their dependencies. -/
theorem buildSingle_simulates (rlibs : Registry) (limit : Nat) (build : Build)
    (built : List LuaString) (name : LuaString) (h : Represents rlibs build built) :
    Simulates rlibs (buildSingle rlibs limit build name) (add rlibs.depend limit built name) := by
  induction limit generalizing build built name with
  | zero => rfl
  | succ limit ih =>
    simp only [buildSingle, add, Registry.depend]
    cases hlib : rlibs.libs.lookup name with
    | none => rfl
    | some lib =>
      simp only [Option.map_some]
      by_cases hname : name ∈ built
      · simp only [(h.mapped name).mpr hname, hname, ↓reduceIte]
        exact h
      · have hmap : ¬(build.map.lookup name).isSome := fun hm => hname ((h.mapped name).mp hm)
        simp only [hmap, hname, ↓reduceIte]
        exact (foldlM_simulates ih lib.depend build built h).bind fun _ _ hrep => hrep.insert hlib

/-- A build holds exactly the libraries of the closure. -/
theorem build_closure (rlibs : Registry) (limit : Nat) (libnames : List LuaString) (b : Build)
    (h : build rlibs limit libnames = .ok b) :
    (∀ name, name ∈ b.list.map Lib.name ↔ Closure rlibs.depend libnames name) ∧
      ∀ lib ∈ b.list, rlibs.libs.lookup lib.name = some lib := by
  have hsim := foldlM_simulates (buildSingle_simulates rlibs limit) libnames _ _
    (represents_empty rlibs)
  rw [show libnames.foldlM (buildSingle rlibs limit) ⟨[], ∅⟩ = .ok b from h] at hsim
  cases hadd : libnames.foldlM (add rlibs.depend limit) [] with
  | error e =>
    rw [hadd] at hsim
    exact hsim.elim
  | ok built =>
    rw [hadd] at hsim
    have hadded := foldlM_added rlibs.depend (add_added rlibs.depend limit) libnames [] built hadd
    refine ⟨fun name => ?_, hsim.listed⟩
    rw [hsim.names]
    exact mem_added_nil rlibs.depend hadded name

/-! ## What `con:exec` sends -/

/-- `opts.libs`: a library may be given as its name. -/
inductive LibNames where
  | nil
  | single (name : LuaString)
  | list (names : List LuaString)

def LibNames.names : LibNames → List LuaString
  | .nil => []
  | .single name => [name]
  | .list names => names

structure ExecLibs where
  nodefaultlib : Bool
  libs : LibNames

/-- The table `liblist` of `con:exec`. -/
def liblist (defaultLibs : List LuaString) (opts : ExecLibs) : Fields Nat LuaString :=
  let liblist : Fields Nat LuaString :=
    if opts.nodefaultlib then ∅ else extendTable ∅ (array defaultLibs)
  match opts.libs with
  | .single name => array [name]
  | .nil => liblist
  | .list names => extendTable liblist (array names)

/-- The code that `con:exec` sends for the user's code. -/
def execCode (rlibs : Registry) (limit : Nat) (defaultLibs : List LuaString) (opts : ExecLibs)
    (code : LuaString) : Except BuildError LuaString :=
  (build rlibs limit (ipairs (liblist defaultLibs opts))).map fun libs => rlibGetCode libs ++ code

/-- The libraries that the code sent starts with. -/
def Sends (rlibs : Registry) (libs : List Lib) (code sent : LuaString) : Prop :=
  sent = (libs.flatMap fun lib => lib.code ++ [10]) ++ code ∧
    ∀ lib ∈ libs, rlibs.libs.lookup lib.name = some lib

/-- Exactly the libraries asked for, or at least these and the default ones, each with
all it depends on. -/
def Complete (rlibs : Registry) (defaultLibs : List LuaString) (opts : ExecLibs)
    (libs : List Lib) : Prop :=
  if opts.nodefaultlib then
    ∀ name, name ∈ libs.map Lib.name ↔ Closure rlibs.depend opts.libs.names name
  else
    ∀ name, Closure rlibs.depend (defaultLibs ++ opts.libs.names) name → name ∈ libs.map Lib.name

/-- The default libraries that the options replace. -/
def replaced (defaultLibs : List LuaString) : LibNames → List LuaString
  | .nil => []
  | .single _ => defaultLibs
  | .list names => defaultLibs.take names.length

/-- The names that are left. -/
def kept (defaultLibs : List LuaString) : LibNames → List LuaString
  | .nil => defaultLibs
  | .single name => [name]
  | .list names => names ++ defaultLibs.drop names.length

/-- What is replaced is a dependency of what is left. -/
def KeepsDefaults (rlibs : Registry) (defaultLibs : List LuaString) (opts : ExecLibs) : Prop :=
  opts.nodefaultlib = true ∨
    ∀ d ∈ replaced defaultLibs opts.libs, Closure rlibs.depend (kept defaultLibs opts.libs) d

theorem ipairs_liblist (defaultLibs : List LuaString) (opts : ExecLibs) :
    ipairs (liblist defaultLibs opts) =
      if opts.nodefaultlib then opts.libs.names else kept defaultLibs opts.libs := by
  have hempty : ∀ k, (∅ : Fields Nat LuaString).lookup (1 + k) = ([] : List LuaString)[k]? := by
    simp
  have hdefault : ∀ k,
      (extendTable ∅ (array defaultLibs)).lookup (1 + k) = defaultLibs[k]? := by
    intro k
    simp [lookup_extendTable, lookup_array]
  obtain ⟨nodefaultlib, libs⟩ := opts
  cases nodefaultlib with
  | false =>
    cases libs with
    | nil => exact ipairs_eq _ _ hdefault
    | single name => exact ipairs_array [name]
    | list names => exact ipairs_extendTable _ _ names hdefault
  | true =>
    cases libs with
    | nil => rfl
    | single name => exact ipairs_array [name]
    | list names => exact (ipairs_extendTable _ _ names hempty).trans (by simp [LibNames.names])

theorem mem_defaults (defaultLibs : List LuaString) (libs : LibNames) (d : LuaString) :
    d ∈ defaultLibs ++ libs.names ↔ d ∈ replaced defaultLibs libs ∨ d ∈ kept defaultLibs libs := by
  cases libs with
  | nil => simp [replaced, kept, LibNames.names]
  | single name => simp [replaced, kept, LibNames.names]
  | list names =>
    have hsplit : d ∈ defaultLibs ↔
        d ∈ defaultLibs.take names.length ∨ d ∈ defaultLibs.drop names.length := by
      rw [← List.mem_append, List.take_append_drop]
    simp only [replaced, kept, LibNames.names, List.mem_append, hsplit]
    tauto

theorem complete_iff (rlibs : Registry) (defaultLibs : List LuaString) (opts : ExecLibs)
    (libs : List Lib)
    (h : ∀ name, name ∈ libs.map Lib.name ↔
      Closure rlibs.depend (ipairs (liblist defaultLibs opts)) name) :
    Complete rlibs defaultLibs opts libs ↔ KeepsDefaults rlibs defaultLibs opts := by
  rw [ipairs_liblist] at h
  unfold Complete KeepsDefaults
  cases hno : opts.nodefaultlib with
  | true =>
    simp only [hno, ↓reduceIte] at h
    simpa using h
  | false =>
    simp only [hno, Bool.false_eq_true, ↓reduceIte, false_or] at h ⊢
    simp only [h]
    constructor
    · intro hall d hd
      exact hall d ⟨d, (mem_defaults defaultLibs opts.libs d).mpr (.inl hd), .refl⟩
    · rintro hkeeps name ⟨r, hr, hrn⟩
      rcases (mem_defaults defaultLibs opts.libs r).mp hr with hr | hr
      · obtain ⟨k, hk, hkr⟩ := hkeeps r hr
        exact ⟨k, hk, hkr.trans hrn⟩
      · exact ⟨r, hr, hrn⟩

theorem execCode_ok {rlibs : Registry} {limit : Nat} {defaultLibs : List LuaString}
    {opts : ExecLibs} {code sent : LuaString}
    (h : execCode rlibs limit defaultLibs opts code = .ok sent) :
    ∃ b, build rlibs limit (ipairs (liblist defaultLibs opts)) = .ok b ∧
      sent = rlibGetCode b ++ code := by
  unfold execCode at h
  cases hb : build rlibs limit (ipairs (liblist defaultLibs opts)) with
  | error e =>
    rw [hb] at h
    cases h
  | ok b =>
    rw [hb] at h
    cases h
    exact ⟨b, rfl, rfl⟩

/-- What `con:exec` sends starts with the libraries wanted exactly if it keeps the
default ones that the list in the options replaces. -/
theorem exec_libs_iff (rlibs : Registry) (limit : Nat) (defaultLibs : List LuaString)
    (opts : ExecLibs) (code sent : LuaString)
    (h : execCode rlibs limit defaultLibs opts code = .ok sent) :
    ∃ libs, Sends rlibs libs code sent ∧
      (Complete rlibs defaultLibs opts libs ↔ KeepsDefaults rlibs defaultLibs opts) := by
  obtain ⟨b, hb, hsent⟩ := execCode_ok h
  obtain ⟨hclosure, hlisted⟩ := build_closure rlibs limit _ b hb
  exact ⟨b.list, ⟨by rw [hsent, rlibGetCode_eq], hlisted⟩,
    complete_iff rlibs defaultLibs opts b.list hclosure⟩

/-- Registered names can be built, dependencies nested less deep than the limit. -/
theorem build_succeeds (rlibs : Registry) {rank : LuaString → Nat}
    (hrank : Ranked rlibs.depend rank) (limit : Nat) (libnames : List LuaString)
    (hknown : ∀ name ∈ libnames, (rlibs.libs.lookup name).isSome ∧ rank name < limit) :
    ∃ b, build rlibs limit libnames = .ok b := by
  obtain ⟨built, hbuilt⟩ := foldlM_succeeds libnames (fun name hname built =>
    add_succeeds rlibs.depend hrank limit built name
      (by simpa [Registry.depend] using (hknown name hname).1) (hknown name hname).2) []
  have hsim := foldlM_simulates (buildSingle_simulates rlibs limit) libnames _ _
    (represents_empty rlibs)
  rw [hbuilt] at hsim
  unfold build
  cases hb : libnames.foldlM (buildSingle rlibs limit) ⟨[], ∅⟩ with
  | error e =>
    rw [hb] at hsim
    exact hsim.elim
  | ok b => exact ⟨b, rfl⟩

/-! ## A default library that is lost -/

def serializeLib : Lib where
  name := bytes ['s', 'e', 'r', 'i', 'a', 'l', 'i', 'z', 'e']
  depend := []
  code := bytes ['s']

def serializeMsgsLib : Lib where
  name := bytes ['s', 'e', 'r', 'i', 'a', 'l', 'i', 'z', 'e', '_', 'm', 's', 'g', 's']
  depend := [serializeLib.name]
  code := bytes ['m']

def focusLib : Lib where
  name := bytes ['f', 'o', 'c', 'u', 's']
  depend := []
  code := bytes ['f']

def threeLibs : Registry :=
  ((emptyRegistry.insert serializeLib).insert serializeMsgsLib).insert focusLib

/-- A list of one library takes the place of `serialize_msgs`. -/
theorem default_libs_lost :
    execCode threeLibs 2 [serializeMsgsLib.name] ⟨false, .list [focusLib.name]⟩ [] =
        .ok (focusLib.code ++ [10]) ∧
      ¬Complete threeLibs [serializeMsgsLib.name] ⟨false, .list [focusLib.name]⟩ [focusLib] := by
  refine ⟨rfl, fun h => ?_⟩
  have hmem : serializeMsgsLib.name ∈ [focusLib].map Lib.name :=
    h serializeMsgsLib.name ⟨serializeMsgsLib.name, by simp, .refl⟩
  revert hmem
  decide

theorem exec_libs_witness :
    ∃ libs, Sends threeLibs libs [] (serializeLib.code ++ [10] ++ serializeMsgsLib.code ++ [10]) ∧
      (Complete threeLibs [serializeMsgsLib.name] ⟨false, .nil⟩ libs ↔
        KeepsDefaults threeLibs [serializeMsgsLib.name] ⟨false, .nil⟩) :=
  exec_libs_iff threeLibs 2 [serializeMsgsLib.name] ⟨false, .nil⟩ [] _ rfl

end Rlibs
