import Overacp.Compute.Config.File
import Overacp.Lib.Slots

/-!
# One reading of each file

What a job has resolved and what is left of it come to the same as the whole over every reading of the files that
has what the cache has. The cache only grows, so at the end one reading, that of the cache, does for all jobs.
-/

namespace Overacp

namespace Config

open WriteOnce (Extends)

/-- The files as the cache has them, and no others. -/
def snapshot (cache : Cache) (path : String) : Except ConfigError Json :=
  match cache.lookup (UnixPath.components path) with
  | some value => .ok value
  | none => .error (.resolution ("file:" ++ path) "not loaded")

/-- What a job comes to, if its rest is resolved by these providers. -/
def Work.meaning (providers : String → Option Lookup) (raw : RawConfig) :
    Work → Option (Except ConfigError ResolvedConfig)
  | .values done todo =>
      (resolveAll providers todo).map fun rest => rest.map fun rest => ⟨done ++ rest, raw⟩
  | .segments done key out rest todo =>
      match resolveSegments providers rest out with
      | .error e => some (.error e)
      | .ok v => (resolveAll providers todo).map fun rest => rest.map fun rest => ⟨done ++ (key, v) :: rest, raw⟩
  | .finished result => result
  | .dropped => resolve providers raw

variable {F : Formats} {env : String → Option String} {s t : Resolver} {i : Nat} {raw : RawConfig}

/-- The file could not be read, or its text not understood. -/
def Unreadable (F : Formats) (reads : List (String × Except String String)) (e : ConfigError) : Prop :=
  ∃ read ∈ reads, decode F read.1 read.2 = .error e

/-! ### One reference -/

theorem fileLookup_congr {load load' : String → Except ConfigError Json} {path : String} (key : Option String)
    (h : load path = load' path) : fileLookup F load path key = fileLookup F load' path key := by
  unfold fileLookup
  rw [h]

/-- At most one file is consulted on the way to the other state. -/
def Consults (F : Formats) (files : String → Except String String) (s t : Resolver) : Prop :=
  (t.cache = s.cache ∧ t.reads = s.reads) ∨
    ∃ path, t.cache = (s.consult F files path).cache ∧ t.reads = (s.consult F files path).reads

theorem Consults.cache_extends {files : String → Except String String} (h : Consults F files s t) :
    Extends s.cache t.cache := by
  rcases h with ⟨hcache, -⟩ | ⟨path, hcache, -⟩
  · rw [hcache]
    exact .refl _
  · rw [hcache]
    exact WriteOnce.load_extends _ _ _

theorem refer_consults (files : String → Except String String) (s : Resolver) (scheme path : String)
    (key : Option String) : Consults F files s (refer F env files s scheme path key).2 := by
  unfold refer
  split
  · exact Or.inl ⟨rfl, rfl⟩
  · dsimp only
    split_ifs
    · exact Or.inr ⟨path, rfl, rfl⟩
    · exact Or.inl ⟨rfl, rfl⟩

theorem withDefaults_congr {scheme : String} (hscheme : scheme ≠ "file")
    (load load' : String → Except ConfigError Json) :
    withDefaults F env load scheme = withDefaults F env load' scheme := by
  unfold withDefaults
  split
  · rfl
  · exact absurd rfl hscheme
  · rfl

theorem refer_jobs {files : String → Except String String} {scheme path : String} {key : Option String}
    {answer : Except ConfigError String} (h : refer F env files s scheme path key = (answer, t)) :
    t.jobs = s.jobs := by
  unfold refer at h
  split at h
  · rw [← (Prod.mk.inj h).2]
  · rw [← (Prod.mk.inj h).2]
    split_ifs <;> rfl

/-- What the providers say to a reference. -/
def answerOf (providers : String → Option Lookup) (scheme path : String) (key : Option String) :
    Except ConfigError String :=
  match providers scheme with
  | none => .error (.unknownProvider scheme)
  | some lookup => lookup path key

theorem refer_fst (files : String → Except String String) (s : Resolver) (scheme path : String)
    (key : Option String) : (refer F env files s scheme path key).1 =
      answerOf (withDefaults F env fun path => (load F s.cache files path).1) scheme path key := by
  unfold refer answerOf
  split <;> simp_all

/-- What a reference is told is what any reading tells it that has what the cache then has, unless its file was read
in vain. -/
theorem refer_answer (files : String → Except String String) (s : Resolver) (scheme path : String)
    (key : Option String) {cache : Cache} (hcache : Extends (refer F env files s scheme path key).2.cache cache) :
    answerOf (withDefaults F env (snapshot cache)) scheme path key = (refer F env files s scheme path key).1 ∨
      ∃ e, (refer F env files s scheme path key).1 = .error e ∧
        Unreadable F (refer F env files s scheme path key).2.reads e := by
  by_cases hscheme : scheme = "file"
  · rw [hscheme] at hcache ⊢
    cases key with
    | none => exact Or.inl rfl
    | some key =>
        cases hload : (load F s.cache files path).1 with
        | error e =>
            obtain ⟨hnone, hread⟩ := WriteOnce.load_error_iff.mp hload
            refine Or.inr ⟨e, ?_, (path, files path), ?_, hread⟩
            · show fileLookup F (fun path => (load F s.cache files path).1) path (some key) = .error e
              unfold fileLookup
              simp only [hload]
            · show _ ∈ (s.consult F files path).reads
              rw [Resolver.consult, if_pos hnone]
              exact List.mem_append_right _ List.mem_cons_self
        | ok v =>
            have hthen : cache.lookup (UnixPath.components path) = some v := hcache _ _ (WriteOnce.lookup_of_load hload)
            have hsame : snapshot cache path = (load F s.cache files path).1 := by
              rw [snapshot, hthen, hload]
            left
            show fileLookup F (snapshot cache) path (some key) =
              fileLookup F (fun path => (load F s.cache files path).1) path (some key)
            exact fileLookup_congr (some key) hsame
  · left
    rw [refer_fst, answerOf, answerOf, withDefaults_congr hscheme]

/-! ### One turn -/

theorem resolveSegments_ref (providers : String → Option Lookup) (scheme path : String) (key : Option String)
    (rest : List Segment) (out : String) :
    resolveSegments providers (.ref scheme path key :: rest) out =
      match answerOf providers scheme path key with
      | .error e => .error e
      | .ok v => resolveSegments providers rest (out ++ v) := by
  rw [resolveSegments, answerOf]
  cases providers scheme <;> rfl

theorem meaning_values_cons (providers : String → Option Lookup) (raw : RawConfig) (done : List (String × String))
    (k v : String) (todo : RawConfig) :
    (Work.values done ((k, v) :: todo)).meaning providers raw =
      match parse v with
      | none => none
      | some (.error e) => some (.error e)
      | some (.ok segments) => (Work.segments done k "" segments todo).meaning providers raw := by
  simp only [Work.meaning, resolveAll, resolveValue]
  cases parse v with
  | none => rfl
  | some parsed =>
      cases parsed with
      | error e => rfl
      | ok segments =>
          simp only [Option.map_some, Except.bind]
          cases resolveSegments providers segments "" with
          | error e => rfl
          | ok value =>
              cases resolveAll providers todo with
              | none => rfl
              | some rest => cases rest <;> rfl

/-- A turn of a job leaves what the whole comes to, unless it ends it over a file that was read in vain. -/
theorem turn_meaning {files : String → Except String String} {work : Work}
    (hturn : turn F env files s i raw work = some t) : Consults F files s t ∧
      ∃ work', t.jobs = s.jobs.set i ⟨raw, work'⟩ ∧
        ((∀ cache, Extends t.cache cache → work'.meaning (withDefaults F env (snapshot cache)) raw =
            work.meaning (withDefaults F env (snapshot cache)) raw) ∨
          ∃ e, work' = .finished (some (.error e)) ∧ Unreadable F t.reads e) := by
  cases work with
  | values done todo =>
      cases todo with
      | nil =>
          obtain rfl := Option.some.inj hturn
          refine ⟨Or.inl ⟨rfl, rfl⟩, _, rfl, Or.inl fun cache _ => ?_⟩
          show some (Except.ok ⟨done, raw⟩) = some (Except.ok (⟨done ++ [], raw⟩ : ResolvedConfig))
          rw [List.append_nil]
      | cons entry todo =>
          obtain ⟨k, v⟩ := entry
          rw [turn] at hturn
          split at hturn
          · rename_i hparse
            obtain rfl := Option.some.inj hturn
            refine ⟨Or.inl ⟨rfl, rfl⟩, _, rfl, Or.inl fun cache _ => ?_⟩
            rw [meaning_values_cons, hparse]
            rfl
          · rename_i e hparse
            obtain rfl := Option.some.inj hturn
            refine ⟨Or.inl ⟨rfl, rfl⟩, _, rfl, Or.inl fun cache _ => ?_⟩
            rw [meaning_values_cons, hparse]
            rfl
          · rename_i segments hparse
            obtain rfl := Option.some.inj hturn
            refine ⟨Or.inl ⟨rfl, rfl⟩, _, rfl, Or.inl fun cache _ => ?_⟩
            rw [meaning_values_cons, hparse]
  | segments done key out rest todo =>
      cases rest with
      | nil =>
          obtain rfl := Option.some.inj hturn
          refine ⟨Or.inl ⟨rfl, rfl⟩, _, rfl, Or.inl fun cache _ => ?_⟩
          simp [Work.meaning, resolveSegments]
      | cons segment rest =>
          cases segment with
          | literal text =>
              obtain rfl := Option.some.inj hturn
              exact ⟨Or.inl ⟨rfl, rfl⟩, _, rfl, Or.inl fun cache _ => rfl⟩
          | ref scheme path key' =>
              have hconsults := @refer_consults F env files s scheme path key'
              have hanswer := @refer_answer F env files s scheme path key'
              rw [turn] at hturn
              split at hturn
              · rename_i e u hrefer
                obtain rfl := Option.some.inj hturn
                rw [hrefer] at hconsults hanswer
                refine ⟨hconsults, _, congrArg (List.set · i _) (refer_jobs hrefer), ?_⟩
                by_cases hread : Unreadable F u.reads e
                · exact Or.inr ⟨e, rfl, hread⟩
                · refine Or.inl fun cache hcache => ?_
                  rcases hanswer hcache with hsame | ⟨e', he, hunread⟩
                  · rw [Work.meaning, Work.meaning, resolveSegments_ref, hsame]
                  · obtain rfl := Except.error.inj he
                    exact absurd hunread hread
              · rename_i v u hrefer
                obtain rfl := Option.some.inj hturn
                rw [hrefer] at hconsults hanswer
                refine ⟨hconsults, _, congrArg (List.set · i _) (refer_jobs hrefer), Or.inl fun cache hcache => ?_⟩
                rcases hanswer hcache with hsame | ⟨e, he, _⟩
                · rw [Work.meaning, Work.meaning, resolveSegments_ref, hsame]
                · cases he
  | finished result => cases hturn
  | dropped => cases hturn

/-! ### Every run -/

/-- What the cache has is what a file had when it was read, and no file is read again once it was understood. -/
structure Faithful (F : Formats) (env : String → Option String) (s : Resolver) : Prop where
  held : ∀ k v, s.cache.lookup k = some v →
    ∃ read ∈ s.reads, UnixPath.components read.1 = k ∧ decode F read.1 read.2 = .ok v
  loaded : ∀ read ∈ s.reads, ∀ v, decode F read.1 read.2 = .ok v → s.cache.lookup (UnixPath.components read.1) = some v
  once : s.reads.Pairwise fun read later => ∀ v, decode F read.1 read.2 = .ok v →
    UnixPath.components later.1 ≠ UnixPath.components read.1
  jobs : ∀ job ∈ s.jobs,
    (∀ cache, Extends s.cache cache → job.work.meaning (withDefaults F env (snapshot cache)) job.raw =
      resolve (withDefaults F env (snapshot cache)) job.raw) ∨
    ∃ e, job.work = .finished (some (.error e)) ∧ Unreadable F s.reads e

namespace Faithful

theorem consult (h : Faithful F env s) (files : String → Except String String) (path : String) :
    let t := s.consult F files path
    (∀ k v, t.cache.lookup k = some v →
        ∃ read ∈ t.reads, UnixPath.components read.1 = k ∧ decode F read.1 read.2 = .ok v) ∧
      (∀ read ∈ t.reads, ∀ v, decode F read.1 read.2 = .ok v → t.cache.lookup (UnixPath.components read.1) = some v) ∧
      t.reads.Pairwise (fun read later => ∀ v, decode F read.1 read.2 = .ok v →
        UnixPath.components later.1 ≠ UnixPath.components read.1) ∧ s.reads ⊆ t.reads := by
  intro t
  have hextends : Extends s.cache t.cache := WriteOnce.load_extends _ _ _
  cases hstore : s.cache.lookup (UnixPath.components path) with
  | some v =>
      have ht : t = s := by
        show s.consult F files path = s
        rw [Resolver.consult, load, WriteOnce.load_of_some hstore, hstore, if_neg (Option.some_ne_none v)]
      rw [ht]
      exact ⟨h.held, h.loaded, h.once, List.Subset.refl _⟩
  | none =>
      have hreads : t.reads = s.reads ++ [(path, files path)] := by
        show (s.consult F files path).reads = _
        rw [Resolver.consult, if_pos hstore]
      have hsub : s.reads ⊆ t.reads := by
        rw [hreads]
        exact List.subset_append_left _ _
      refine ⟨fun k v hlookup => ?_, fun read hread v hdecode => ?_, ?_, hsub⟩
      · rcases WriteOnce.lookup_load hlookup with hold | ⟨-, rfl, hdecode⟩
        · obtain ⟨read, hread, hkey, hdecode⟩ := h.held k v hold
          exact ⟨read, hsub hread, hkey, hdecode⟩
        · refine ⟨(path, files path), ?_, rfl, hdecode⟩
          rw [hreads]
          exact List.mem_append_right _ List.mem_cons_self
      · rw [hreads] at hread
        rcases List.mem_append.mp hread with hold | hnew
        · exact hextends _ _ (h.loaded read hold v hdecode)
        · obtain rfl := List.mem_singleton.mp hnew
          exact WriteOnce.lookup_of_load (congrArg Prod.fst (WriteOnce.load_of_none hstore hdecode))
      · rw [hreads, List.pairwise_append]
        refine ⟨h.once, List.pairwise_singleton _ _, fun read hread later hlater v hdecode heq => ?_⟩
        obtain rfl := List.mem_singleton.mp hlater
        rw [heq, h.loaded read hread v hdecode] at hstore
        cases hstore

theorem turned (h : Faithful F env s) {files : String → Except String String} {job : Job} (hjob : s.jobs[i]? = some job)
    (hturn : turn F env files s i job.raw job.work = some t) : Faithful F env t := by
  obtain ⟨hconsults, work', hjobs, hmeaning⟩ := turn_meaning hturn
  have hextends := hconsults.cache_extends
  have hfile : (∀ k v, t.cache.lookup k = some v →
      ∃ read ∈ t.reads, UnixPath.components read.1 = k ∧ decode F read.1 read.2 = .ok v) ∧
      (∀ read ∈ t.reads, ∀ v, decode F read.1 read.2 = .ok v → t.cache.lookup (UnixPath.components read.1) = some v) ∧
      t.reads.Pairwise (fun read later => ∀ v, decode F read.1 read.2 = .ok v →
        UnixPath.components later.1 ≠ UnixPath.components read.1) ∧ s.reads ⊆ t.reads := by
    rcases hconsults with ⟨hcache, hreads⟩ | ⟨path, hcache, hreads⟩
    · rw [hcache, hreads]
      exact ⟨h.held, h.loaded, h.once, List.Subset.refl _⟩
    · rw [hcache, hreads]
      exact h.consult files path
  obtain ⟨hheld, hloaded, honce, hsub⟩ := hfile
  have hunread {e : ConfigError} : Unreadable F s.reads e → Unreadable F t.reads e := by
    rintro ⟨read, hread, hdecode⟩
    exact ⟨read, hsub hread, hdecode⟩
  refine ⟨hheld, hloaded, honce, fun other hmem => ?_⟩
  rw [hjobs] at hmem
  obtain ⟨j, hj⟩ := List.mem_iff_getElem?.mp hmem
  rcases Slots.of_getElem?_set hj with ⟨-, rfl⟩ | ⟨-, hj⟩
  · rcases hmeaning with hsame | hbroken
    · rcases h.jobs job (List.mem_of_getElem? hjob) with hwhole | ⟨e, hover, -⟩
      · exact Or.inl fun cache hcache => (hsame cache hcache).trans (hwhole cache (hextends.trans hcache))
      · rw [hover] at hturn
        cases hturn
    · exact Or.inr hbroken
  · exact (h.jobs other (List.mem_of_getElem? hj)).imp (fun hwhole cache hcache => hwhole cache (hextends.trans hcache))
      fun ⟨e, hover, hread⟩ => ⟨e, hover, hunread hread⟩

end Faithful

theorem step_faithful {event : Event} (hstep : step F env s event = some t) (h : Faithful F env s) :
    Faithful F env t := by
  cases event with
  | resolve raw =>
      obtain rfl := Option.some.inj hstep
      refine ⟨h.held, h.loaded, h.once, fun job hmem => ?_⟩
      rcases List.mem_append.mp hmem with hold | hnew
      · exact h.jobs job hold
      · obtain rfl := List.mem_singleton.mp hnew
        exact Or.inl fun cache _ => rfl
  | turn i files =>
      obtain ⟨job, hjob, hturn⟩ := Option.bind_eq_some_iff.mp hstep
      exact h.turned hjob hturn
  | drop i =>
      obtain ⟨job, hjob, hdrop⟩ := Option.bind_eq_some_iff.mp hstep
      split at hdrop
      · cases hdrop
      · obtain rfl := Option.some.inj hdrop
        refine ⟨h.held, h.loaded, h.once, fun other hmem => ?_⟩
        obtain ⟨j, hj⟩ := List.mem_iff_getElem?.mp hmem
        rcases Slots.of_getElem?_set hj with ⟨-, rfl⟩ | ⟨-, hj⟩
        · exact Or.inl fun cache _ => rfl
        · exact h.jobs other (List.mem_of_getElem? hj)

/-- Whatever happens to the files, and in whatever order the calls go on: a call that is over has said what resolving
its configuration over the files as the cache has them comes to, or what is wrong with a file that could not be read.
The cache has each file as it was when it was read, and no file is read again once it was understood. -/
theorem resolved_over_one_snapshot {events : List Event} (hrun : (system F env).run .start events = some s) :
    (∀ job ∈ s.jobs, ∀ result, job.work = .finished result →
      result = resolve (withDefaults F env (snapshot s.cache)) job.raw ∨
        ∃ e, result = some (.error e) ∧ Unreadable F s.reads e) ∧
    (∀ k v, s.cache.lookup k = some v ↔
      ∃ read ∈ s.reads, UnixPath.components read.1 = k ∧ decode F read.1 read.2 = .ok v) ∧
    s.reads.Pairwise fun read later => ∀ v, decode F read.1 read.2 = .ok v →
      UnixPath.components later.1 ≠ UnixPath.components read.1 := by
  have h : Faithful F env s := (system F env).run_invariant (fun _ _ _ => step_faithful) hrun
    ⟨nofun, fun _ hmem => absurd hmem List.not_mem_nil, .nil, fun _ hmem => absurd hmem List.not_mem_nil⟩
  refine ⟨fun job hmem result hover => ?_, fun k v => ⟨h.held k v, ?_⟩, h.once⟩
  · rcases h.jobs job hmem with hwhole | ⟨e, hbroken, hread⟩
    · have hsame := hwhole s.cache (.refl _)
      rw [hover] at hsame
      exact Or.inl hsame
    · rw [hover, Work.finished.injEq] at hbroken
      exact Or.inr ⟨e, hbroken, hread⟩
  · rintro ⟨read, hread, rfl, hdecode⟩
    exact h.loaded read hread v hdecode

/-- What other crates do with one file. -/
def poolFormats : Formats where
  readNumber := some
  numberText n := String.ofList n.lexeme
  jsonError _ := "expected value"
  toml raw := if raw = "key = \"one\"" then .ok (.table [("key", .string "one")]) else .error "expected newline"

/-- A file whose key is changed between two calls. -/
def poolFile (secret : String) : String → Except String String := fun path =>
  if path = "/etc/pool.toml" then .ok ("key = \"" ++ secret ++ "\"") else .error "not found"

def poolConfig : RawConfig := [("morph.api_key", "$\x7bfile:/etc/pool.toml:key\x7d")]

theorem parse_poolConfig : parse "$\x7bfile:/etc/pool.toml:key\x7d" =
    some (.ok [.ref "file" "/etc/pool.toml" (some "key")]) := by
  have hbody : '}' ∉ "file:/etc/pool.toml:key".toList := by decide +kernel
  have hscan := scan_closed "$\x7bfile:/etc/pool.toml:key\x7d" hbody [] [] []
  simp only [scan_nil] at hscan
  rw [parse_eq_scan]
  exact congrArg some (hscan.trans (by decide +kernel))

theorem resolved_over_one_snapshot_rotated :
    let events : List Event := [.resolve poolConfig, .resolve poolConfig, .turn 0 (poolFile "one"),
      .turn 1 (poolFile "one"), .turn 0 (poolFile "one"), .turn 1 (poolFile "two"), .turn 1 (poolFile "two"),
      .turn 1 (poolFile "two")]
    ∃ s, (system poolFormats fun _ => none).run .start events = some s ∧
      resolve (withDefaults poolFormats (fun _ => none) (snapshot s.cache)) poolConfig =
        some (.ok ⟨[("morph.api_key", "one")], poolConfig⟩) := by
  intro events
  let work : Work := .segments [] "morph.api_key" "" [.ref "file" "/etc/pool.toml" (some "key")] []
  have hparsed : (system poolFormats fun _ => none).run .start (events.take 4) =
      some ⟨[], [⟨poolConfig, work⟩, ⟨poolConfig, work⟩], []⟩ := by
    have hturn (files : String → Except String String) (s : Resolver) (i : Nat) :
        turn poolFormats (fun _ => none) files s i poolConfig (.values [] poolConfig) =
          some (s.become i poolConfig work) := by
      show (match parse "$\x7bfile:/etc/pool.toml:key\x7d" with
        | none => some (s.become i poolConfig (.finished none))
        | some (.error e) => some (s.become i poolConfig (.finished (some (.error e))))
        | some (.ok segments) => some (s.become i poolConfig (.segments [] "morph.api_key" "" segments []))) = _
      rw [parse_poolConfig]
    simp [events, system, step, hturn, Transition.System.run_cons, Resolver.become, Resolver.start]
  have hends : ((system poolFormats fun _ => none).run ⟨[], [⟨poolConfig, work⟩, ⟨poolConfig, work⟩], []⟩
      (events.drop 4)).map (fun s => s.jobs[1]?) =
        some (some ⟨poolConfig, .finished (some (.ok ⟨[("morph.api_key", "one")], poolConfig⟩))⟩) := by decide +kernel
  obtain ⟨s, hrest, hjob⟩ := Option.map_eq_some_iff.mp hends
  have hrun : (system poolFormats fun _ => none).run .start events = some s := by
    rw [← List.take_append_drop 4 events, Transition.System.run_append, hparsed]
    exact hrest
  refine ⟨s, hrun, ?_⟩
  rcases (resolved_over_one_snapshot hrun).1 _ (List.mem_of_getElem? hjob) _ rfl with hwhole | ⟨e, herror, -⟩
  · exact hwhole.symm
  · cases herror

end Config

end Overacp
