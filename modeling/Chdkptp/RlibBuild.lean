import Chdkptp.Rlibs

/-!
# Building registered libraries

`register` demands that the dependencies of a library are registered. That alone does
not keep cycles out, since a name may be registered again. Without a cycle `build`
returns the closure of the names, each library once and behind its dependencies.
-/

namespace RlibBuild

open LuaValue LuaText DependencyOrder Rlibs

/-- `rlibs:register_array`. -/
def registerArray (rlibs : Registry) (t : List Lib) : Except RegisterError Registry :=
  t.foldlM register rlibs

/-- Exactly the libraries of the closure, each once and behind all it depends on, and the
same ones by name. -/
structure InDependencyOrder (rlibs : Registry) (libnames : List LuaString) (b : Build) :
    Prop where
  registered : ∀ lib ∈ b.list, rlibs.libs.lookup lib.name = some lib
  closure : ∀ name, name ∈ b.list.map Lib.name ↔ Closure rlibs.depend libnames name
  once : (b.list.map Lib.name).Nodup
  behind : ∀ before lib after, b.list = before ++ lib :: after →
    ∀ name, Relation.TransGen (Depends rlibs.depend) lib.name name → name ∈ before.map Lib.name
  mapped : ∀ name lib, b.map.lookup name = some lib ↔ lib ∈ b.list ∧ lib.name = name

/-- `build` returns such a list, whenever its calls may be nested deep enough. -/
def Builds (rlibs : Registry) (libnames : List LuaString) : Prop :=
  ∃ least, ∀ limit, least ≤ limit →
    ∃ b, build rlibs limit libnames = .ok b ∧ InDependencyOrder rlibs libnames b

def AllRegistered (rlibs : Registry) (libnames : List LuaString) : Prop :=
  ∀ name ∈ libnames, (rlibs.libs.lookup name).isSome

/-! ## The registry -/

/-- Dependencies of registered libraries are registered. -/
def DepsKnown (rlibs : Registry) : Prop :=
  ∀ n m, Depends rlibs.depend n m → (rlibs.depend m).isSome

theorem depend_isSome (rlibs : Registry) (name : LuaString) :
    (rlibs.depend name).isSome = (rlibs.libs.lookup name).isSome := Option.isSome_map

theorem depend_insert_self (rlibs : Registry) (t : Lib) :
    (rlibs.insert t).depend t.name = some t.depend := by
  simp only [Registry.depend, Registry.insert, AList.lookup_insert, Option.map_some]

theorem depend_insert_other (rlibs : Registry) {t : Lib} {n : LuaString} (h : n ≠ t.name) :
    (rlibs.insert t).depend n = rlibs.depend n := by
  simp only [Registry.depend, Registry.insert, AList.lookup_insert_ne h]

/-- Registering succeeds exactly with registered dependencies, and then replaces one entry. -/
theorem register_ok {rlibs rlibs' : Registry} {t : Lib} (h : register rlibs t = .ok rlibs') :
    rlibs' = rlibs.insert t ∧ ∀ d ∈ t.depend, (rlibs.depend d).isSome := by
  simp only [register] at h
  split at h
  · cases h
  · rename_i hnone
    cases h
    refine ⟨rfl, fun d hd => ?_⟩
    have hfound := List.find?_eq_none.mp hnone d hd
    rw [depend_isSome, Option.isSome_iff_ne_none]
    simpa using hfound

theorem depsKnown_register {rlibs rlibs' : Registry} {t : Lib} (hknown : DepsKnown rlibs)
    (h : register rlibs t = .ok rlibs') : DepsKnown rlibs' := by
  obtain ⟨rfl, hdeps⟩ := register_ok h
  -- what is registered stays registered
  have hstays : ∀ m, (rlibs.depend m).isSome → ((rlibs.insert t).depend m).isSome := by
    intro m hm
    by_cases he : m = t.name
    · rw [he, depend_insert_self]
      rfl
    · rwa [depend_insert_other rlibs he]
  rintro n m ⟨deps, hn, hm⟩
  by_cases he : n = t.name
  · rw [he, depend_insert_self] at hn
    cases hn
    exact hstays m (hdeps m hm)
  · rw [depend_insert_other rlibs he] at hn
    exact hstays m (hknown n m ⟨deps, hn, hm⟩)

theorem depsKnown_registerArray {rlibs rlibs' : Registry} {ts : List Lib}
    (hknown : DepsKnown rlibs) (h : registerArray rlibs ts = .ok rlibs') : DepsKnown rlibs' := by
  induction ts generalizing rlibs with
  | nil =>
    cases h
    exact hknown
  | cons t ts ih =>
    rw [registerArray, List.foldlM_cons] at h
    cases hr : register rlibs t with
    | error e =>
      rw [hr] at h
      cases h
    | ok mid =>
      rw [hr] at h
      exact ih (depsKnown_register hknown hr) h

theorem depsKnown_empty : DepsKnown emptyRegistry := by
  rintro n m ⟨deps, hn, _⟩
  cases hn

/-- A registry has finitely many names. -/
theorem registered_finite (rlibs : Registry) : {n | (rlibs.depend n).isSome}.Finite := by
  apply (List.finite_toSet rlibs.libs.keys).subset
  intro n hn
  have hlookup : (rlibs.libs.lookup n).isSome := by rwa [← depend_isSome]
  exact AList.lookup_isSome.mp hlookup

/-- A new name brings no cycle, as nothing registered depends on it. -/
theorem acyclic_register {rlibs rlibs' : Registry} {t : Lib} (hknown : DepsKnown rlibs)
    (hacyclic : Acyclic rlibs.depend) (hnew : rlibs.depend t.name = none)
    (h : register rlibs t = .ok rlibs') : Acyclic rlibs'.depend := by
  obtain ⟨rfl, hdeps⟩ := register_ok h
  have htarget : ∀ n m, Depends (rlibs.insert t).depend n m → m ≠ t.name := by
    rintro n m ⟨deps, hn, hm⟩ rfl
    have hsome : (rlibs.depend t.name).isSome := by
      by_cases he : n = t.name
      · rw [he, depend_insert_self] at hn
        cases hn
        exact hdeps _ hm
      · rw [depend_insert_other rlibs he] at hn
        exact hknown n _ ⟨deps, hn, hm⟩
    rw [hnew] at hsome
    cases hsome
  have hold : ∀ n m, n ≠ t.name → Relation.TransGen (Depends (rlibs.insert t).depend) n m →
      Relation.TransGen (Depends rlibs.depend) n m ∧ m ≠ t.name := by
    intro n m hn hpath
    induction hpath with
    | single hstep =>
      refine ⟨.single ?_, htarget _ _ hstep⟩
      obtain ⟨deps, hd, hm⟩ := hstep
      rw [depend_insert_other rlibs hn] at hd
      exact ⟨deps, hd, hm⟩
    | tail _ hstep ih =>
      refine ⟨ih.1.tail ?_, htarget _ _ hstep⟩
      obtain ⟨deps, hd, hm⟩ := hstep
      rw [depend_insert_other rlibs ih.2] at hd
      exact ⟨deps, hd, hm⟩
  intro n hcycle
  obtain ⟨k, _, hstep⟩ := Relation.TransGen.tail'_iff.mp hcycle
  have hn := htarget k n hstep
  exact hacyclic n (hold n n hn hcycle).1

/-! ## The build -/

/-- The map holds registered libraries under their names. -/
def MapRegistered (rlibs : Registry) (build : Build) : Prop :=
  ∀ name lib, build.map.lookup name = some lib → rlibs.libs.lookup name = some lib

theorem foldlM_mapRegistered {rlibs : Registry} {f : Build → LuaString → Except BuildError Build}
    (hf : ∀ build build' name, MapRegistered rlibs build → f build name = .ok build' →
      MapRegistered rlibs build')
    (names : List LuaString) (build build' : Build) (h : MapRegistered rlibs build)
    (hfold : names.foldlM f build = .ok build') : MapRegistered rlibs build' := by
  induction names generalizing build with
  | nil =>
    cases hfold
    exact h
  | cons name names ih =>
    rw [List.foldlM_cons] at hfold
    cases hr : f build name with
    | error e =>
      rw [hr] at hfold
      cases hfold
    | ok mid =>
      rw [hr] at hfold
      exact ih mid (hf build mid name h hr) hfold

theorem buildSingle_mapRegistered (rlibs : Registry) (limit : Nat) (build build' : Build)
    (name : LuaString) (h : MapRegistered rlibs build)
    (hb : buildSingle rlibs limit build name = .ok build') : MapRegistered rlibs build' := by
  induction limit generalizing build build' name with
  | zero => cases hb
  | succ limit ih =>
    simp only [buildSingle] at hb
    cases hlib : rlibs.libs.lookup name with
    | none =>
      rw [hlib] at hb
      cases hb
    | some lib =>
      rw [hlib] at hb
      by_cases hmap : (build.map.lookup name).isSome
      · simp only [hmap, ↓reduceIte] at hb
        cases hb
        exact h
      · simp only [hmap, Bool.false_eq_true, ↓reduceIte] at hb
        cases hmid : lib.depend.foldlM (buildSingle rlibs limit) build with
        | error e =>
          rw [hmid] at hb
          cases hb
        | ok mid =>
          rw [hmid] at hb
          cases hb
          have hkeep := foldlM_mapRegistered ih lib.depend build mid h hmid
          intro n l hl
          by_cases hn : n = name
          · subst hn
            rw [AList.lookup_insert] at hl
            cases hl
            exact hlib
          · rw [AList.lookup_insert_ne hn] at hl
            exact hkeep n l hl

/-- The libraries of a build in terms of the names that the search collects. -/
theorem build_represents {rlibs : Registry} {limit : Nat} {libnames built : List LuaString}
    (hadd : libnames.foldlM (add rlibs.depend limit) [] = .ok built) :
    ∃ b, build rlibs limit libnames = .ok b ∧ Represents rlibs b built ∧ MapRegistered rlibs b := by
  have hsim := foldlM_simulates (buildSingle_simulates rlibs limit) libnames _ _
    (represents_empty rlibs)
  rw [hadd] at hsim
  cases hb : libnames.foldlM (buildSingle rlibs limit) ⟨[], ∅⟩ with
  | error e =>
    rw [hb] at hsim
    exact hsim.elim
  | ok b =>
    rw [hb] at hsim
    have hempty : MapRegistered rlibs ⟨[], ∅⟩ := by
      intro name lib h
      cases h
    exact ⟨b, hb, hsim,
      foldlM_mapRegistered (buildSingle_mapRegistered rlibs limit) libnames _ b hempty hb⟩

/-- Names that are the closure in order make a build that is. -/
theorem inDependencyOrder_of_built {rlibs : Registry} {libnames built : List LuaString} {b : Build}
    (hrep : Represents rlibs b built) (hmap : MapRegistered rlibs b)
    (hadded : Added rlibs.depend libnames [] built) (hin : InOrder rlibs.depend built) :
    InDependencyOrder rlibs libnames b := by
  obtain ⟨hordered, hnodup⟩ := hin
  constructor
  · exact hrep.listed
  · intro name
    rw [hrep.names]
    exact mem_added_nil rlibs.depend hadded name
  · rw [hrep.names]
    exact hnodup
  · intro before lib after heq name hpath
    apply hordered.trans rlibs.depend _ hpath
    · exact after.map Lib.name
    · rw [← hrep.names, heq, List.map_append, List.map_cons]
  · intro name lib
    constructor
    · intro hlookup
      have hreg := hmap name lib hlookup
      have hmem : name ∈ built := (hrep.mapped name).mp (by rw [hlookup]; rfl)
      rw [← hrep.names] at hmem
      obtain ⟨lib', hlib', rfl⟩ := List.mem_map.mp hmem
      rw [hrep.listed lib' hlib'] at hreg
      cases hreg
      exact ⟨hlib', rfl⟩
    · rintro ⟨hlib, rfl⟩
      have hmem : lib.name ∈ built := by
        rw [← hrep.names]
        exact List.mem_map_of_mem hlib
      obtain ⟨lib', hlib'⟩ := Option.isSome_iff_exists.mp ((hrep.mapped lib.name).mpr hmem)
      have hreg := hmap lib.name lib' hlib'
      rw [hrep.listed lib hlib] at hreg
      cases hreg
      exact hlib'

theorem builds_of_acyclic {rlibs : Registry} (hknown : DepsKnown rlibs)
    (hacyclic : Acyclic rlibs.depend) {libnames : List LuaString}
    (hnames : AllRegistered rlibs libnames) : Builds rlibs libnames := by
  obtain ⟨least, hleast⟩ := foldlM_eventually rlibs.depend libnames (fun name hname =>
    add_eventually rlibs.depend hacyclic (registered_finite rlibs) hknown
      (by rw [depend_isSome]; exact hnames name hname))
  refine ⟨least, fun limit hlimit => ?_⟩
  obtain ⟨built, hbuilt⟩ := hleast limit hlimit []
  obtain ⟨b, hb, hrep, hmap⟩ := build_represents hbuilt
  have hadded := foldlM_added rlibs.depend (add_added rlibs.depend limit) libnames [] built hbuilt
  have hin := foldlM_inOrder rlibs.depend (add_inOrder rlibs.depend hacyclic limit) libnames []
    built ⟨Ordered.nil rlibs.depend, List.nodup_nil⟩ hbuilt
  exact ⟨b, hb, inDependencyOrder_of_built hrep hmap hadded hin⟩

/-- A name on a cycle cannot stand behind itself. -/
theorem no_cycle_of_builds {rlibs : Registry} {n : LuaString} (h : Builds rlibs [n]) :
    ¬Relation.TransGen (Depends rlibs.depend) n n := by
  intro hcycle
  obtain ⟨least, hleast⟩ := h
  obtain ⟨b, _, hb⟩ := hleast least (Nat.le_refl _)
  have hmem : n ∈ b.list.map Lib.name := (hb.closure n).mpr ⟨n, List.mem_singleton_self n, .refl⟩
  obtain ⟨lib, hlib, rfl⟩ := List.mem_map.mp hmem
  obtain ⟨before, after, heq⟩ := List.append_of_mem hlib
  have hbefore := hb.behind before lib after heq lib.name hcycle
  have honce := hb.once
  rw [heq, List.map_append, List.map_cons] at honce
  exact (List.nodup_cons.mp (List.nodup_middle.mp honce)).1 (List.mem_append_left _ hbefore)

theorem acyclic_of_builds {rlibs : Registry}
    (h : ∀ libnames, AllRegistered rlibs libnames → Builds rlibs libnames) :
    Acyclic rlibs.depend := by
  intro n hcycle
  have hn : AllRegistered rlibs [n] := by
    intro name hname
    rw [List.mem_singleton.mp hname, ← depend_isSome]
    obtain ⟨k, ⟨deps, hdeps, _⟩, _⟩ := Relation.TransGen.head'_iff.mp hcycle
    rw [hdeps]
    rfl
  exact no_cycle_of_builds (h [n] hn) hcycle

/-- No cycle comes about while every library has a new name. -/
theorem acyclic_of_new_names {rlibs rlibs' : Registry} {ts : List Lib} (hknown : DepsKnown rlibs)
    (hacyclic : Acyclic rlibs.depend) (hnodup : (ts.map Lib.name).Nodup)
    (hnew : ∀ t ∈ ts, rlibs.depend t.name = none) (h : registerArray rlibs ts = .ok rlibs') :
    Acyclic rlibs'.depend := by
  induction ts generalizing rlibs with
  | nil =>
    cases h
    exact hacyclic
  | cons t ts ih =>
    rw [registerArray, List.foldlM_cons] at h
    rw [List.map_cons, List.nodup_cons] at hnodup
    cases hr : register rlibs t with
    | error e =>
      rw [hr] at h
      cases h
    | ok mid =>
      rw [hr] at h
      have hmid := acyclic_register hknown hacyclic (hnew t List.mem_cons_self) hr
      apply ih (depsKnown_register hknown hr) hmid hnodup.2 _ h
      intro u hu
      obtain ⟨rfl, _⟩ := register_ok hr
      have hne : u.name ≠ t.name := by
        intro he
        exact hnodup.1 (he ▸ List.mem_map_of_mem hu)
      rw [depend_insert_other rlibs hne]
      exact hnew u (List.mem_cons_of_mem _ hu)

theorem acyclic_empty : Acyclic emptyRegistry.depend := by
  intro n hcycle
  obtain ⟨k, ⟨deps, hdeps, _⟩, _⟩ := Relation.TransGen.head'_iff.mp hcycle
  cases hdeps

/-- `serialize` is registered again, with a dependency on a library that depends on it. -/
def twoLibs : List Lib :=
  [serializeLib, serializeMsgsLib, { serializeLib with depend := [serializeMsgsLib.name] }]

end RlibBuild
