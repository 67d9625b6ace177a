import RequestRouter.Config
import RequestRouter.Proofs.Router.Ways
import RequestRouter.Proofs.Table.Steps
/-!
Work on a tree of routers. A session is the tree at one moment: the router that is worked on, the mounts around it,
and the newest route of the router as long as calls on it go on. Whatever happens to a tree is a sequence of
actions, and the installation of a table is a sequence of the other actions.
-/
namespace RequestRouter

open RequestRouter.Http

variable {H : Type}

/-- A tree of routers with the router that is worked on. -/
structure Session (H : Type) where
  /-- The routers around, the innermost first, each with the mount through which the work goes on. The mount comes
  after the other routes of its router. -/
  outer : List (Router H × Route H)
  /-- The router that is worked on, without the open route. -/
  router : Router H
  /-- The newest route of the router while it is configured. -/
  opened : Option (Entry H)
  setup : Setup
  wraps : Wraps H

inductive Setting (H : Type) where
  | strictSlash (value : Bool)
  | skipClean (value : Bool)
  | useEncodedPath (value : Bool)
  | notFound (handler : H)
  | methodNotAllowed (handler : H)

def Setting.apply (s : Settings H) : Setting H → Settings H
  | strictSlash value => { s with scope := { s.scope with strictSlash := value } }
  | skipClean value => { s with scope := { s.scope with skipClean := value } }
  | useEncodedPath value => { s with scope := { s.scope with useEncodedPath := value } }
  | notFound handler => { s with notFound := some handler }
  | methodNotAllowed handler => { s with methodNotAllowed := some handler }

/-- A single step of the work. -/
inductive Move (H : Type) where
  /-- The configuration of the open route is over. -/
  | close
  | set (x : Setting H)
  | middleware (m : Middleware H)
  /-- Creates a route, which is then open. -/
  | route
  /-- A configuration call on the open route. -/
  | call (c : Call H)
  /-- Goes on with the router below the open route. -/
  | enter
  /-- Goes back to the mount above, which is open again. -/
  | leave
  /-- Dispatches a request on a router, given by the positions of the mounts on the way down to it. -/
  | dispatch (way : List Nat) (req : Request)
  /-- Forgets the compiled patterns. -/
  | forgetPatterns
  /-- Other trees take identities for routes and routers, and compile patterns with the same cache. -/
  | elsewhere (routes routers : Nat) (patterns : List String)

/-- Something that happens to a tree. -/
inductive Action (H : Type) where
  | move (m : Move H)
  | install (table : RouteTable) (resolve : String → Option H)

/-- The router that is reached by going down through the mounts at some positions. -/
def Router.below? : List Nat → Router H → Option (Router H)
  | [], r => some r
  | i :: way, r => (r.routes.entries[i]?).bind fun e => e.sub.bind (below? way)

namespace Session

/-- A root router that has just been created. -/
def new (cache : PatternCache) : Session H :=
  let (router, setup) := Router.new .root (.new cache)
  ⟨[], router, none, setup, .new⟩

/-- The router that is worked on, with the open route. -/
def current (s : Session H) : Router H := s.opened.elim s.router s.router.add

/-- The whole tree. -/
def root (s : Session H) : Router H := s.outer.foldl (fun r f => f.1.add ⟨f.2, some r⟩) s.current

def close (s : Session H) : Session H := { s with router := s.current, opened := none }

/-- Whoever turns to the router is done with its newest route. A move that is not possible changes nothing
else: there may be no open route, no mount above, or no router at a place. -/
def move (s : Session H) : Move H → Session H
  | .close => s.close
  | .set x => { s.close with router := { s.current with settings := x.apply s.current.settings } }
  | .middleware m =>
    let (router, wraps) := s.current.useMiddleware m s.wraps
    { s.close with router, wraps }
  | .route =>
    let (route, setup) := s.current.newRoute s.setup
    { s.close with opened := some ⟨route, none⟩, setup }
  | .call c =>
    match s.opened with
    | none => s
    | some e =>
      let (route, setup) := c.apply e.route s.setup
      { s with opened := some { e with route }, setup }
  | .enter =>
    match s.opened with
    | none => s
    | some e =>
      let (router, setup) := e.subrouter s.setup
      { s with outer := (s.router, e.route) :: s.outer, router, opened := none, setup }
  | .leave =>
    match s.outer with
    | [] => s.close
    | (router, mount) :: outer => { s with outer, router, opened := some ⟨mount, some s.current⟩ }
  | .dispatch way req =>
    match s.current.below? way with
    | none => s.close
    | some r => { s.close with wraps := (r.dispatch req s.wraps).2 }
  | .forgetPatterns => { s.close with setup := { s.setup with cache := s.setup.cache.clear } }
  | .elsewhere routes routers patterns =>
    { s with setup := { s.setup with
        cache := patterns.foldl (fun cache p => (cache.compile p).2) s.setup.cache
        nextRoute := s.setup.nextRoute + routes
        nextRouter := s.setup.nextRouter + routers } }

def moves (s : Session H) (ms : List (Move H)) : Session H := ms.foldl move s

def perform (s : Session H) : Action H → Session H
  | .move m => s.move m
  | .install table resolve =>
    let (router, setup, _) := table.install resolve s.current s.setup
    { s.close with router, setup }

/-- The session after some actions. -/
def run (s : Session H) (history : List (Action H)) : Session H := history.foldl perform s

def CallsMount (s : Session H) (id : RouteId) : Move H → Prop
  | .call _ => ∃ e, s.opened = some e ∧ e.route.id = id ∧ e.sub.isSome = true
  | _ => False

/-- None of the moves is a configuration call on a mount that has its router already. -/
def Prompt : Session H → List (Move H) → Prop
  | _, [] => True
  | s, m :: ms => (∀ id, ¬ s.CallsMount id m) ∧ Prompt (s.move m) ms

/-- The tree is put together from the router that is worked on outwards, one mount after the other. -/
theorem root_induction {P : List (Router H × Route H) → Router H → Prop}
    (hadd : ∀ x outer r, P (x :: outer) r → P outer (x.1.add ⟨x.2, some r⟩)) {s : Session H}
    (h : P s.outer s.current) : P [] s.root := by
  rw [root]
  generalize s.current = r at h
  generalize s.outer = outer at h
  induction outer generalizing r with
  | nil => exact h
  | cons x outer ih => exact ih _ (hadd x outer r h)

/-- Where adding a router below a mount adds what it contributes, the tree has what the routers contribute. -/
theorem contribution_root {α : Type} {f : Router H → List α} {g : Route H → List α}
    (hadd : ∀ r mount sub, f (r.add ⟨mount, some sub⟩) = f r ++ (g mount ++ f sub)) (s : Session H) :
    f s.root = (s.outer.reverse.flatMap fun x => f x.1 ++ g x.2) ++ f s.current := by
  refine root_induction (P := fun outer r => (outer.reverse.flatMap fun x => f x.1 ++ g x.2) ++ f r =
    (s.outer.reverse.flatMap fun x => f x.1 ++ g x.2) ++ f s.current) (fun x outer r h => ?_) rfl
  rw [← h, hadd, List.reverse_cons, List.flatMap_append, List.flatMap_singleton]
  simp only [List.append_assoc]

theorem moves_append (s : Session H) (ms ms' : List (Move H)) : s.moves (ms ++ ms') = (s.moves ms).moves ms' :=
  List.foldl_append

theorem moves_cons (s : Session H) (m : Move H) (ms : List (Move H)) : s.moves (m :: ms) = (s.move m).moves ms :=
  rfl

theorem run_cons (s : Session H) (a : Action H) (history : List (Action H)) :
    s.run (a :: history) = (s.perform a).run history := rfl

theorem run_append (s : Session H) (history history' : List (Action H)) :
    s.run (history ++ history') = (s.run history).run history' :=
  List.foldl_append

theorem moves_calls (s : Session H) {e : Entry H} (he : s.opened = some e) (calls : List (Call H)) :
    s.moves (calls.map .call) =
      { s with
        opened := some { e with route := (Call.applyAll calls e.route s.setup).1 }
        setup := (Call.applyAll calls e.route s.setup).2 } := by
  induction calls generalizing s e with
  | nil =>
    obtain ⟨outer, router, opened, setup, wraps⟩ := s
    obtain rfl : opened = some e := he
    rfl
  | cons c calls ih =>
    have hmove : s.move (.call c) = { s with
        opened := some { e with route := (c.apply e.route s.setup).1 }
        setup := (c.apply e.route s.setup).2 } := by simp only [move, he]
    rw [List.map_cons, moves_cons, hmove, ih _ rfl, Call.applyAll_cons]

theorem prompt_append {s : Session H} {ms ms' : List (Move H)} (h : s.Prompt ms) (h' : (s.moves ms).Prompt ms') :
    s.Prompt (ms ++ ms') := by
  induction ms generalizing s with
  | nil => exact h'
  | cons m ms ih => exact ⟨h.1, ih h.2 h'⟩

theorem prompt_calls {s : Session H} {r : Route H} (h : s.opened = some ⟨r, none⟩) (calls : List (Call H)) :
    s.Prompt (calls.map .call) := by
  induction calls generalizing s r with
  | nil => trivial
  | cons c calls ih =>
    refine ⟨?_, ih (r := (c.apply r s.setup).1) (by simp only [move, h])⟩
    rintro id ⟨e, he, -, hsub⟩
    rw [h] at he
    cases he
    cases hsub

end Session

theorem RouteSpec.exists_calls (resolve : String → Option H) (spec : RouteSpec) (r : Route H) (st : Setup) :
    ∃ calls, ((spec.configure resolve r st).1, (spec.configure resolve r st).2.1) = Call.applyAll calls r st := by
  cases hkey : spec.handler with
  | none => exact ⟨spec.calls, by simp [configure, hkey]⟩
  | some key =>
    cases hh : resolve key with
    | none => exact ⟨spec.calls, by simp [configure, hkey, hh]⟩
    | some h =>
      refine ⟨spec.calls ++ [.handler h], ?_⟩
      simp only [configure, hkey, hh, Call.applyAll, List.foldl_append]
      rfl

namespace Session

/-- Moves lead from one session to the other, and none of them configures a mount that has its router already. -/
def Reaches (s s' : Session H) : Prop := ∃ ms, s.Prompt ms ∧ s.moves ms = s'

theorem Reaches.refl (s : Session H) : s.Reaches s := ⟨[], trivial, rfl⟩

theorem Reaches.trans {s s' s'' : Session H} (h : s.Reaches s') (h' : s'.Reaches s'') : s.Reaches s'' := by
  obtain ⟨ms, hms, rfl⟩ := h
  obtain ⟨ms', hms', rfl⟩ := h'
  exact ⟨ms ++ ms', prompt_append hms hms', moves_append s ms ms'⟩

theorem reaches_move {s : Session H} {m : Move H} (h : ∀ id, ¬ s.CallsMount id m) : s.Reaches (s.move m) :=
  ⟨[m], ⟨h, trivial⟩, rfl⟩

theorem reaches_rule (resolve : String → Option H) (spec : RouteSpec) (s : Session H) (hs : s.opened = none) :
    let configured := spec.configure resolve (s.router.newRoute s.setup).1 (s.router.newRoute s.setup).2
    s.Reaches { s with opened := some ⟨configured.1, none⟩, setup := configured.2.1 } := by
  obtain ⟨outer, r, opened, st, w⟩ := s
  obtain rfl : opened = none := hs
  intro configured
  obtain ⟨calls, hcalls⟩ := spec.exists_calls resolve (r.newRoute st).1 (r.newRoute st).2
  have hopen : ((Session.mk outer r none st w).move .route).opened = some ⟨(r.newRoute st).1, none⟩ := rfl
  have hconfigure : ((Session.mk outer r none st w).move .route).Reaches
      ⟨outer, r, some ⟨configured.1, none⟩, configured.2.1, w⟩ := by
    refine ⟨calls.map .call, prompt_calls hopen calls, ?_⟩
    rw [moves_calls _ hopen]
    exact congrArg (fun c : Route H × Setup => Session.mk outer r (some ⟨c.1, none⟩) c.2 w) hcalls.symm
  exact (reaches_move fun _ => id).trans hconfigure

theorem reaches_outline {resolve : String → Option H} {o : Outline} {s : Session H} {n : Nat}
    {x : Router H × Setup × Except InstallError Nat} (hs : s.opened = none)
    (h : o.Installs resolve s.router s.setup n x) : s.Reaches { s with router := x.1, setup := x.2.1 } := by
  obtain ⟨outer, r, opened, st, w⟩ := s
  obtain rfl : opened = none := hs
  have hleaf : ∀ (outer : List (Router H × Route H)) {spec : RouteSpec} {r : Router H} {st st' : Setup}
      {route : Route H} {e : Option InstallError},
      spec.configure resolve (r.newRoute st).1 (r.newRoute st).2 = (route, st', e) →
      (Session.mk outer r none st w).Reaches ⟨outer, r.add ⟨route, none⟩, none, st', w⟩ := by
    intro outer spec r st st' route e hconf
    have hrule := reaches_rule resolve spec (Session.mk outer r none st w) rfl
    simp only [hconf] at hrule
    exact hrule.trans (reaches_move (m := .close) fun _ => id)
  have hmount : ∀ (outer : List (Router H × Route H)) {spec : RouteSpec} {r sub : Router H} {st st' st'' : Setup}
      {route : Route H} {e : Option InstallError},
      spec.configure resolve (r.newRoute st).1 (r.newRoute st).2 = (route, st', e) →
      (Session.mk ((r, route) :: outer) (Router.new route.innerScope st').1 none
        (Router.new (H := H) route.innerScope st').2 w).Reaches ⟨(r, route) :: outer, sub, none, st'', w⟩ →
      (Session.mk outer r none st w).Reaches ⟨outer, r.add ⟨route, some sub⟩, none, st'', w⟩ := by
    intro outer spec r sub st st' st'' route e hconf hnested
    have hrule := reaches_rule resolve spec (Session.mk outer r none st w) rfl
    simp only [hconf] at hrule
    exact ((hrule.trans (reaches_move (m := .enter) fun _ => id)).trans hnested).trans
      ((reaches_move (m := .leave) fun _ => id).trans (reaches_move (m := .close) fun _ => id))
  dsimp only at h ⊢
  induction h generalizing outer with
  | nil | conflict => exact .refl _
  | failed _ hconf => exact hleaf outer hconf
  | leaf _ hconf _ ih => exact (hleaf outer hconf).trans (ih outer)
  | within _ _ hconf _ ih => exact hmount outer hconf (ih _)
  | mount _ _ hconf _ _ ihNested ihRest => exact (hmount outer hconf (ihNested _)).trans (ihRest outer)

theorem reaches_install (s : Session H) (table : RouteTable) (resolve : String → Option H) :
    s.Reaches (s.perform (.install table resolve)) :=
  (reaches_move (m := .close) fun _ => id).trans
    (reaches_outline (s := s.close) rfl (Outline.installs_install resolve table.routes s.current s.setup 0))

/-- What moves keep is kept by every history in which these moves occur. The moves of an installation configure a
mount before it gets its router. -/
theorem run_keeps_of {P : Session H → Prop} {Q : Session H → Move H → Prop}
    (hmove : ∀ s m, Q s m → P s → P (s.move m)) (hprompt : ∀ s m, (∀ id, ¬ s.CallsMount id m) → Q s m)
    {s : Session H} (h : P s) (history : List (Action H))
    (hQ : ∀ before m after, history = before ++ .move m :: after → Q (s.run before) m) : P (s.run history) := by
  have hmoves : ∀ (ms : List (Move H)) (s : Session H), s.Prompt ms → P s → P (s.moves ms) := by
    intro ms
    induction ms with
    | nil => exact fun _ _ h => h
    | cons m ms ih => exact fun s hms h => ih _ hms.2 (hmove s m (hprompt s m hms.1) h)
  induction history generalizing s with
  | nil => exact h
  | cons a history ih =>
    rw [run_cons]
    have hrest : ∀ before m after, history = before ++ .move m :: after → Q ((s.perform a).run before) m :=
      fun before m after heq => hQ (a :: before) m after (by rw [heq]; rfl)
    cases a with
    | move m => exact ih (hmove s m (hQ [] m history rfl) h) hrest
    | install table resolve =>
      obtain ⟨ms, hms, hperform⟩ := s.reaches_install table resolve
      exact ih (hperform ▸ hmoves ms s hms h) hrest

theorem run_keeps {P : Session H → Prop} (hmove : ∀ s m, P s → P (s.move m)) {s : Session H} (h : P s)
    (history : List (Action H)) : P (s.run history) :=
  run_keeps_of (Q := fun _ _ => True) (fun s m _ => hmove s m) (fun _ _ _ => trivial) h history fun _ _ _ _ => trivial

end Session

end RequestRouter
