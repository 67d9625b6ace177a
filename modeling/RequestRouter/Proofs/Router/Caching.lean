import RequestRouter.Proofs.Pattern.Cached
import RequestRouter.Proofs.Router.Sessions
/-!
Work on a tree with an enabled cache and with a disabled one. No job tells the two apart: forgetting the cache and
doing a job can be exchanged.
-/
namespace RequestRouter

open RequestRouter.Http

variable {H : Type}

def Setup.uncached (st : Setup) : Setup := { st with cache := .disabled }

def Attempt.uncached (a : Attempt H) : Attempt H := { a with setup := a.setup.uncached }

def Session.uncached (s : Session H) : Session H := { s with setup := s.setup.uncached }

section Fields

variable (st : Setup) (s : Session H)

@[simp] theorem Setup.uncached_cache : st.uncached.cache = .disabled := rfl

@[simp] theorem Session.uncached_setup : s.uncached.setup = s.setup.uncached := rfl

@[simp] theorem Session.uncached_opened : s.uncached.opened = s.opened := rfl

@[simp] theorem Session.uncached_current : s.uncached.current = s.current := rfl

@[simp] theorem Router.newRoute_uncached (r : Router H) :
    r.newRoute st.uncached = ((r.newRoute st).1, (r.newRoute st).2.uncached) := rfl

@[simp] theorem Router.new_uncached (scope : Scope) : (Router.new scope st.uncached : Router H × Setup) =
    ((Router.new scope st).1, (Router.new (H := H) scope st).2.uncached) := rfl

end Fields

namespace Call

variable {st : Setup}

theorem compile_uncached (h : st.cache.Sound) (r : Route H) (source : String) (kind : TemplateKind) :
    ∃ t st', st'.cache.Sound ∧ compile r st source kind = (t, st') ∧
      compile r st.uncached source kind = (t, st'.uncached) := by
  obtain ⟨t, cache, hcache, hx, hy⟩ := Template.compile_alike h source kind
    ⟨r.scope.strictSlash, r.scope.useEncodedPath⟩
  refine ⟨t, { st with cache }, hcache, ?_, ?_⟩
  · rw [compile, hx]
  · rw [compile, Setup.uncached_cache, hy]
    rfl

theorem readHeaderPatterns_alike {cache : PatternCache} (h : cache.Sound) (pairs : List (String × String)) :
    PatternCache.Alike (readHeaderPatterns cache pairs) (readHeaderPatterns .disabled pairs) := by
  induction pairs generalizing cache with
  | nil => exact .intro h _
  | cons pair rest ih =>
    simp only [readHeaderPatterns]
    split
    · exact .intro h _
    · split
      · exact (ih h).map _
      · obtain ⟨r, cache', h', hx, hy⟩ := PatternCache.compile_alike h pair.2
        rw [hx, hy]
        cases r with
        | none => exact .intro h' _
        | some regex => exact (ih h').map _

def Uncached (a b : Attempt H) : Prop := b = a.uncached ∧ a.setup.cache.Sound

theorem setHost_uncached (h : st.cache.Sound) (template : String) (r : Route H) :
    Uncached (setHost template r st) (setHost template r st.uncached) := by
  obtain ⟨t, st', h', hx, hy⟩ :=
    compile_uncached h r (r.scope.host.elim template fun parent => template ++ "." ++ parent.source) .host
  simp only [Uncached, setHost, hx, hy]
  cases t <;> exact ⟨rfl, h'⟩

theorem setPath_uncached (h : st.cache.Sound) (template : String) (kind : TemplateKind) (r : Route H) :
    Uncached (setPath template kind r st) (setPath template kind r st.uncached) := by
  simp only [Uncached, setPath]
  split
  · exact ⟨rfl, h⟩
  · obtain ⟨t, st', h', hx, hy⟩ := compile_uncached h r (fullPath r.scope template) kind
    simp only [hx, hy]
    cases t <;> exact ⟨rfl, h'⟩

theorem addQueries_uncached (h : st.cache.Sound) (pairs : List (String × String)) (r : Route H) :
    Uncached (addQueries pairs r st) (addQueries pairs r st.uncached) := by
  induction pairs generalizing r st with
  | nil => exact ⟨rfl, h⟩
  | cons pair rest ih =>
    obtain ⟨t, st', h', hx, hy⟩ := compile_uncached h r (querySource pair.1 pair.2) .query
    simp only [Uncached, addQueries, hx, hy]
    cases t with
    | error e => exact ⟨rfl, h'⟩
    | ok t => exact ih h' _

theorem attempt_uncached (h : st.cache.Sound) (r : Route H) (c : Call H) :
    Uncached (c.attempt r st) (c.attempt r st.uncached) := by
  cases c with
  | path t => exact setPath_uncached h t .path r
  | leading t => exact setPath_uncached h t .leading r
  | host t => exact setHost_uncached h t r
  | queries pairs => exact addQueries_uncached h pairs r
  | headerPatterns pairs =>
    obtain ⟨hs, cache, hcache, hx, hy⟩ := readHeaderPatterns_alike h pairs
    simp only [Uncached, attempt, hx, Setup.uncached_cache, hy]
    cases hs <;> exact ⟨rfl, hcache⟩
  | methods names | headers names =>
    simp only [Uncached, attempt]
    split <;> exact ⟨rfl, h⟩
  | name n =>
    have hnames : st.uncached.names = st.names := rfl
    simp only [Uncached, attempt, setName, hnames]
    split
    · exact ⟨rfl, h⟩
    · split <;> exact ⟨rfl, h⟩
  | schemes | matcher | transform | buildOnly | handler => exact ⟨rfl, h⟩

theorem apply_uncached (h : st.cache.Sound) (r : Route H) (c : Call H) :
    c.apply r st.uncached = ((c.apply r st).1, (c.apply r st).2.uncached) ∧ (c.apply r st).2.cache.Sound := by
  simp only [apply]
  split
  · exact ⟨rfl, h⟩
  · obtain ⟨heq, hsound⟩ := attempt_uncached h r c
    rw [heq]
    exact ⟨rfl, hsound⟩

theorem applyAll_uncached (h : st.cache.Sound) (r : Route H) (calls : List (Call H)) :
    applyAll calls r st.uncached = ((applyAll calls r st).1, (applyAll calls r st).2.uncached) ∧
      (applyAll calls r st).2.cache.Sound := by
  induction calls generalizing r st with
  | nil => exact ⟨rfl, h⟩
  | cons c calls ih =>
    obtain ⟨heq, hsound⟩ := apply_uncached h r c
    rw [applyAll_cons, applyAll_cons, heq]
    exact ih hsound _

end Call

section Tables

variable {st : Setup}

theorem RouteSpec.configure_uncached (h : st.cache.Sound) (resolve : String → Option H) (spec : RouteSpec)
    (r : Route H) : ∃ route st' e, st'.cache.Sound ∧ spec.configure resolve r st = (route, st', e) ∧
      spec.configure resolve r st.uncached = (route, st'.uncached, e) := by
  obtain ⟨heq, hsound⟩ := Call.applyAll_uncached h r spec.calls
  simp only [configure, heq]
  split
  · exact ⟨_, _, _, hsound, rfl, rfl⟩
  · split
    · exact ⟨_, _, _, hsound, rfl, rfl⟩
    · rename_i handler _
      obtain ⟨heq, hsound⟩ := Call.apply_uncached hsound (Call.applyAll spec.calls r st).1 (.handler handler)
      rw [heq]
      exact ⟨_, _, _, hsound, rfl, rfl⟩

/-- Rules come to the same routes, or the same error, with a sound cache and with a disabled one. -/
theorem Outline.installs_uncached {resolve : String → Option H} {o : Outline} {r : Router H} {n : Nat}
    {x : Router H × Setup × Except InstallError Nat} (h : st.cache.Sound) (hx : o.Installs resolve r st n x) :
    o.Installs resolve r st.uncached n (x.1, x.2.1.uncached, x.2.2) ∧ x.2.1.cache.Sound := by
  have hroute : ∀ {spec : RouteSpec} {r : Router H} {st st' : Setup} {route : Route H} {e : Option InstallError},
      st.cache.Sound → spec.configure resolve (r.newRoute st).1 (r.newRoute st).2 = (route, st', e) →
      spec.configure resolve (r.newRoute st.uncached).1 (r.newRoute st.uncached).2 = (route, st'.uncached, e) ∧
        st'.cache.Sound := by
    intro spec r st st' route e h hconf
    have hnew : (r.newRoute st).2.cache.Sound := h
    obtain ⟨route', st'', e', h', hx, hy⟩ := spec.configure_uncached hnew resolve (r.newRoute st).1
    cases hx.symm.trans hconf
    exact ⟨hy, h'⟩
  induction hx with
  | nil => exact ⟨.nil _ _ _, h⟩
  | conflict hconflict => exact ⟨.conflict hconflict, h⟩
  | failed hfits hconf =>
    obtain ⟨hconf, h⟩ := hroute h hconf
    exact ⟨.failed hfits hconf, h⟩
  | leaf hfits hconf _ ih =>
    obtain ⟨hconf, h⟩ := hroute h hconf
    exact ⟨.leaf hfits hconf (ih h).1, (ih h).2⟩
  | within hne hfits hconf _ ih =>
    obtain ⟨hconf, h⟩ := hroute h hconf
    exact ⟨.within hne hfits hconf (ih h).1, (ih h).2⟩
  | mount hne hfits hconf _ _ ihNested ihRest =>
    obtain ⟨hconf, h⟩ := hroute h hconf
    obtain ⟨hnested, h⟩ := ihNested h
    exact ⟨.mount hne hfits hconf hnested (ihRest h).1, (ihRest h).2⟩

theorem RouteTable.install_uncached (h : st.cache.Sound) (resolve : String → Option H) (table : RouteTable)
    (r : Router H) : ∃ r' st' x, st'.cache.Sound ∧ table.install resolve r st = (r', st', x) ∧
      table.install resolve r st.uncached = (r', st'.uncached, x) := by
  obtain ⟨huncached, hsound⟩ := Outline.installs_uncached h (Outline.installs_install resolve table.routes r st 0)
  exact ⟨_, _, _, hsound, rfl, Outline.installs_iff.mp huncached⟩

end Tables

/-- Something that is done with a tree or with the cache that it shares. -/
inductive Job (H : Type) where
  | act (a : Action H)
  | pattern (text : String)
  | template (source : String) (kind : TemplateKind) (options : TemplateOptions)
  /-- Forgets the compiled patterns, also while a route is open. -/
  | forget

inductive Job.Result (H : Type) where
  | done
  /-- The error of the open route after a call. -/
  | called (e : Option RouteError)
  | dispatched (m : Option (RouteMatch H))
  | installed (x : Except InstallError Nat)
  | pattern (r : Option RequestRouter.Regex)
  | template (t : Except RouteError Template)

namespace Session

variable {s : Session H}

def result (s : Session H) : Action H → Job.Result H
  | .move (.call c) => .called ((s.move (.call c)).opened.bind (·.route.error))
  | .move (.dispatch way req) => .dispatched ((s.current.below? way).map fun r => (r.dispatch req s.wraps).1)
  | .move _ => .done
  | .install table resolve => .installed (table.install resolve s.current s.setup).2.2

/-- The session with another cache. -/
def withCache (s : Session H) (cache : PatternCache) : Session H := { s with setup := { s.setup with cache } }

def work (s : Session H) : Job H → Job.Result H × Session H
  | .act a => (s.result a, s.perform a)
  | .pattern text => (.pattern (s.setup.cache.compile text).1, s.withCache (s.setup.cache.compile text).2)
  | .template source kind options =>
    (.template (Template.compile source kind options s.setup.cache).1,
      s.withCache (Template.compile source kind options s.setup.cache).2)
  | .forget => (.done, s.withCache s.setup.cache.clear)

/-- What comes back from jobs, one after the other, and the session after them. -/
def works (s : Session H) : List (Job H) → List (Job.Result H) × Session H
  | [] => ([], s)
  | j :: js => ((s.work j).1 :: ((s.work j).2.works js).1, ((s.work j).2.works js).2)

theorem move_uncached (h : s.setup.cache.Sound) (m : Move H) :
    s.uncached.move m = (s.move m).uncached ∧ (s.move m).setup.cache.Sound := by
  cases m with
  | close | set | middleware | route => exact ⟨rfl, h⟩
  | call c =>
    cases hopened : s.opened with
    | none =>
      simp only [move, uncached_opened, hopened]
      exact ⟨trivial, h⟩
    | some e =>
      obtain ⟨heq, hsound⟩ := c.apply_uncached h e.route
      simp only [move, uncached_opened, hopened, uncached_setup, heq]
      exact ⟨rfl, hsound⟩
  | enter =>
    cases hopened : s.opened with
    | none =>
      simp only [move, uncached_opened, hopened]
      exact ⟨trivial, h⟩
    | some e =>
      obtain ⟨route, sub⟩ := e
      simp only [move, uncached_opened, hopened]
      cases sub <;> exact ⟨rfl, h⟩
  | leave =>
    obtain ⟨outer, r, opened, st, w⟩ := s
    cases outer <;> exact ⟨rfl, h⟩
  | dispatch way req =>
    simp only [move, uncached_current]
    cases s.current.below? way <;> exact ⟨rfl, h⟩
  | forgetPatterns => exact ⟨rfl, h.clear⟩
  | elsewhere routes routers patterns =>
    obtain ⟨hsound, hdisabled⟩ := PatternCache.foldl_compile h patterns
    refine ⟨?_, hsound⟩
    simp only [move, uncached, Setup.uncached, hdisabled]

theorem perform_uncached (h : s.setup.cache.Sound) (a : Action H) :
    s.uncached.perform a = (s.perform a).uncached ∧ (s.perform a).setup.cache.Sound := by
  cases a with
  | move m => exact move_uncached h m
  | install table resolve =>
    obtain ⟨r, st, x, hsound, hx, hy⟩ := table.install_uncached h resolve s.current
    simp only [perform, hx, uncached_current, uncached_setup, hy]
    exact ⟨rfl, hsound⟩

theorem result_uncached (h : s.setup.cache.Sound) (a : Action H) : s.uncached.result a = s.result a := by
  cases a with
  | move m =>
    cases m with
    | call c => rw [result, result, (move_uncached h (.call c)).1]; rfl
    | _ => rfl
  | install table resolve =>
    obtain ⟨r, st, x, -, hx, hy⟩ := table.install_uncached h resolve s.current
    simp only [result, hx, uncached_current, uncached_setup, hy]

theorem work_uncached (h : s.setup.cache.Sound) (j : Job H) :
    s.uncached.work j = ((s.work j).1, (s.work j).2.uncached) ∧ (s.work j).2.setup.cache.Sound := by
  cases j with
  | act a =>
    obtain ⟨hperform, hsound⟩ := perform_uncached h a
    refine ⟨?_, hsound⟩
    simp only [work, hperform, result_uncached h a]
  | pattern text =>
    obtain ⟨r, cache, hsound, hx, hy⟩ := PatternCache.compile_alike h text
    simp only [work, hx, uncached_setup, Setup.uncached_cache, hy]
    exact ⟨rfl, hsound⟩
  | template source kind options =>
    obtain ⟨t, cache, hsound, hx, hy⟩ := Template.compile_alike h source kind options
    simp only [work, hx, uncached_setup, Setup.uncached_cache, hy]
    exact ⟨rfl, hsound⟩
  | forget => exact ⟨rfl, h.clear⟩

theorem works_uncached (h : s.setup.cache.Sound) (jobs : List (Job H)) :
    s.uncached.works jobs = ((s.works jobs).1, (s.works jobs).2.uncached) ∧ (s.works jobs).2.setup.cache.Sound := by
  induction jobs generalizing s with
  | nil => exact ⟨rfl, h⟩
  | cons j jobs ih =>
    obtain ⟨hwork, hsound⟩ := work_uncached h j
    obtain ⟨hworks, hsound⟩ := ih hsound
    refine ⟨?_, hsound⟩
    simp only [works, hwork, hworks]

/-- Nothing that comes back from jobs tells an enabled cache from a disabled one, and the trees they come to differ in
nothing but the cache. The enabled cache maps texts to what they compile to, and the disabled one stays empty. -/
theorem works_new_eq_disabled (jobs : List (Job H)) :
    let cached := (new .new : Session H).works jobs
    let plain := (new .disabled : Session H).works jobs
    cached.1 = plain.1 ∧ cached.2 = plain.2.withCache cached.2.setup.cache ∧ cached.2.setup.cache.enabled = true ∧
      (∀ p r, (p, r) ∈ cached.2.setup.cache.entries → Regex.compile? p = some r) ∧
      plain.2.setup.cache = .disabled := by
  intro cached plain
  obtain ⟨hplain, hsound⟩ := works_uncached (s := (new .new : Session H)) PatternCache.sound_new jobs
  have heq : plain = (cached.1, cached.2.uncached) := hplain
  rw [heq]
  exact ⟨rfl, rfl, hsound.enabled, hsound.entries, rfl⟩

end Session

end RequestRouter
