import RequestRouter.CommandLine.Run
import RequestRouter.Proofs.Router.Components
import RequestRouter.Proofs.Router.Locations
import RequestRouter.Proofs.Table.Mirror
/-!
Reports of requests that the router of a table serves. Such a router wraps no handlers and has none for failures, and
each of its handlers writes its own key. So what a report shows is what dispatch finds.
-/
namespace RequestRouter

open RequestRouter.Http

variable {H : Type}

namespace Tree

/-- The routers below mounts have got nothing but routes since they were created. -/
def Bare : Tree H → Prop
  | nil => True
  | leaf _ rest => rest.Bare
  | mount _ s inner rest => (∃ key scope, s = .new key scope) ∧ inner.Bare ∧ rest.Bare

end Tree

theorem Outline.Mirrors.bare {resolve : String → Option H} {up : Texts} {o : Outline} {t : Tree H}
    (h : o.Mirrors resolve up t) : t.Bare := by
  induction h with
  | nil => trivial
  | leaf _ _ ih => exact ih
  | mount _ _ _ _ ihNested ihRest => exact ⟨⟨_, _, rfl⟩, ihNested, ihRest⟩

def RouteMatch.Bare : RouteMatch H → Prop
  | matched route handler _ => handler = route.handler
  | failed _ fallback => fallback = none

@[simp] theorem Settings.finish_new (key : Nat) (scope : Scope) (route : Route H) (handler : Option H) (vars : Vars)
    (w : Wraps H) : (new key scope).finish route handler vars w = (.matched route handler vars, w) := by
  cases handler <;> rfl

theorem Tree.resolve_bare {t : Tree H} (h : t.Bare) (key : Nat) (scope : Scope) (view : View) (mismatch : Bool)
    (w : Wraps H) : (t.resolve (.new key scope) view mismatch w).1.Bare := by
  induction t generalizing key scope mismatch w with
  | nil => cases mismatch <;> rfl
  | leaf r rest ih =>
    by_cases hadm : r.admits view false = true
    · obtain ⟨hb, captured, hcheck⟩ := (r.admits_iff view false).mp hadm
      simp only [resolve, hb, hcheck, Settings.finish_new]
      rfl
    · rw [resolve_leaf_of_not_admits (by simpa using hadm)]
      exact ih h key scope _ w
  | mount r below inner rest ihInner ihRest =>
    obtain ⟨⟨key', scope', rfl⟩, hinner, hrest⟩ := h
    by_cases hadm : r.admits view true = true
    · rw [resolve_mount_of_admits hadm]
      have hbelow := ihInner hinner key' scope' false w
      rcases hres : inner.resolve (.new key' scope') view false w with ⟨⟨found, handler, vars⟩ | ⟨e, _ | g⟩, w'⟩
      · rw [hres] at hbelow
        simp only [Settings.finish_new]
        exact hbelow
      · exact ihRest hrest key scope _ w'
      · rw [hres] at hbelow
        cases hbelow
    · rw [resolve_mount_of_not_admits (by simpa using hadm)]
      exact ihRest hrest key scope _ w

theorem Tree.exists_methods_of_mem_allowed {t : Tree H} {view : View} {out : List Method} {m : Method}
    (h : m ∈ (t.allowed view out).1) : m ∈ out ∨ ∃ r ∈ t.flatten, ∃ ms, r.methods? = some ms ∧ m ∈ ms := by
  induction t generalizing out with
  | nil => exact .inl h
  | leaf r rest ih =>
    have hrest {out : List Method} (h : m ∈ (rest.allowed view out).1) :
        m ∈ out ∨ ∃ x ∈ (leaf r rest).flatten, ∃ ms, x.methods? = some ms ∧ m ∈ ms :=
      (ih h).imp_right fun ⟨x, hx, hms⟩ => ⟨x, List.mem_cons_of_mem _ hx, hms⟩
    rw [allowed] at h
    split at h
    · exact hrest h
    · cases hms : r.methods? with
      | none =>
        rw [hms] at h
        exact hrest h
      | some ms =>
        rw [hms] at h
        rcases hrest h with hout | hmem
        · exact ((mem_addMethods out ms m).mp hout).imp_right fun hm => ⟨r, List.mem_cons_self, ms, hms, hm⟩
        · exact .inr hmem
  | mount r s inner rest ihInner ihRest =>
    have hrest {out : List Method} (h : m ∈ (rest.allowed view out).1) :
        m ∈ out ∨ ∃ x ∈ (mount r s inner rest).flatten, ∃ ms, x.methods? = some ms ∧ m ∈ ms :=
      (ihRest h).imp_right fun ⟨x, hx, hms⟩ => ⟨x, List.mem_cons_of_mem _ (List.mem_append_right _ hx), hms⟩
    have hinner (h : m ∈ (inner.allowed view []).1) :
        ∃ x ∈ (mount r s inner rest).flatten, ∃ ms, x.methods? = some ms ∧ m ∈ ms := by
      obtain ⟨x, hx, hms⟩ := (ihInner h).resolve_left List.not_mem_nil
      exact ⟨x, List.mem_cons_of_mem _ (List.mem_append_left _ hx), hms⟩
    rw [allowed] at h
    split at h
    · exact hrest h
    · cases hms : r.methods? with
      | none =>
        rw [hms] at h
        rcases hrest h with hout | hmem
        · exact ((mem_addMethods out _ m).mp hout).imp_right hinner
        · exact .inr hmem
      | some own =>
        rw [hms] at h
        rcases hrest h with hout | hmem
        · refine ((mem_addMethods out _ m).mp hout).imp_right fun hm => ⟨r, List.mem_cons_self, own, hms, ?_⟩
          split at hm
          · exact hm
          · exact (List.mem_filter.mp hm).1
        · exact .inr hmem

theorem Http.isTokenChar_bounds {c : Char} (h : isTokenChar c = true) : 32 < c.toNat ∧ c.toNat < 127 := by
  have hmarks : ∀ d ∈ ['!', '#', '$', '%', '&', '\'', '*', '+', '-', '.', '^', '_', '`', '|', '~'],
      32 < d.toNat ∧ d.toNat < 127 := by simp
  rcases Bool.or_eq_true_iff.mp h with h | h
  · have hbounds := Text.isAlphanum_bounds h
    omega
  · exact hmarks c (List.contains_iff_mem.mp h)

theorem Http.isReadable_intercalate {names : List String} (h : ∀ n ∈ names, isToken n = true) :
    isReadable (", ".intercalate names) = true := by
  rw [isReadable, List.all_eq_true]
  intro c hc
  by_contra hbad
  rw [String.toList_intercalate] at hc
  refine not_mem_intercalate (fun hsep => ?_) (fun part hpart hmem => ?_) hc
  · have hseps : ∀ d ∈ ", ".toList, ((32 ≤ d.toNat && d.toNat < 127) || d == '\t') = true := by simp
    exact hbad (hseps c hsep)
  · obtain ⟨n, hn, rfl⟩ := List.mem_map.mp hpart
    have hchar := List.all_eq_true.mp (Bool.and_eq_true_iff.mp (h n hn)).2 c hmem
    have hbounds := isTokenChar_bounds hchar
    refine hbad ?_
    simp [hbounds.1.le, hbounds.2]

theorem Http.isHeaderValue_of_isReadable {s : String} (h : isReadable s = true) : isHeaderValue s = true := by
  rw [isReadable, List.all_eq_true] at h
  rw [isHeaderValue, List.all_eq_true]
  intro c hc
  have hchar := h c hc
  simp only [Bool.or_eq_true, Bool.and_eq_true, decide_eq_true_eq, bne_iff_ne] at hchar ⊢
  exact hchar.imp_left fun hrange => ⟨hrange.1, hrange.2.ne⟩

theorem RouteSpec.Describes.isToken {resolve : String → Option H} {up : Texts} {spec : RouteSpec} {route : Route H}
    (h : spec.Describes resolve up route) {ms : List Method} (hms : route.methods? = some ms) {m : Method}
    (hm : m ∈ ms) :
    Http.isToken m.name = true := by
  have hnames := h.methods
  rw [hms, methodNames?] at hnames
  split at hnames
  · cases hnames
  · have hname : m.name ∈ ms.map (·.name) := List.mem_map_of_mem hm
    have hlist : ms.map (·.name) = _ := Option.some.inj hnames
    rw [hlist, List.mem_eraseDups] at hname
    obtain ⟨n, hn, heq⟩ := List.mem_map.mp hname
    exact heq ▸ h.valid n hn

namespace Outline.Describe

variable {resolve : String → Option H} {rules : List Rule} {routes : List (Route H)}

theorem exists_rule (h : Describe resolve rules routes) {route : Route H} (hroute : route ∈ routes) :
    ∃ rule, (rule, route) ∈ rules.zip routes := by
  rw [← List.map_snd_zip h.length_eq.ge] at hroute
  obtain ⟨⟨rule, _⟩, hrule, rfl⟩ := List.mem_map.mp hroute
  exact ⟨rule, hrule⟩

theorem describes (h : Describe resolve rules routes) {rule : Rule} {route : Route H}
    (hrule : (rule, route) ∈ rules.zip routes) : rule.spec.Describes resolve rule.up route :=
  (List.forall₂_iff_zip.mp h).2 hrule

theorem isToken_of_mem_allowed {r : Router H} (h : Describe resolve rules r.routes.flatten) {req : Request} {m : Method}
    (hm : m ∈ r.allowedMethods req) : isToken m.name = true := by
  obtain ⟨route, hroute, ms, hms, hmem⟩ :=
    (Tree.exists_methods_of_mem_allowed hm).resolve_left List.not_mem_nil
  obtain ⟨rule, hrule⟩ := h.exists_rule hroute
  exact (h.describes hrule).isToken hms hmem

end Outline.Describe

namespace CommandLine

theorem loadRouter_eq_ok_iff {env : String → Option String} {t : RouteTable} {r : Router Handler} {st : Setup} :
    loadRouter env t = .ok (r, st) ↔ ∃ n, t.router env (some ∘ keyHandler) = (r, st, .ok n) := by
  rw [loadRouter]
  rcases t.router env (some ∘ keyHandler) with ⟨r', st', e | n⟩ <;> simp

/-- A router that is loaded mirrors its table, and it has got nothing but routes since it was created. -/
theorem mirrors_of_loadRouter {env : String → Option String} {t : RouteTable} {r : Router Handler} {st : Setup}
    (h : loadRouter env t = .ok (r, st)) :
    (∃ key scope, r.settings = .new key scope) ∧
      t.routes.Mirrors (some ∘ keyHandler) r.settings.scope.texts r.routes := by
  obtain ⟨n, hrouter⟩ := loadRouter_eq_ok_iff.mp h
  let start : Router Handler × Setup := Router.ofConfig (t.config.getD (.ofLookup env))
  have hinstall : t.routes.install (some ∘ keyHandler) start.1 start.2 0 = (r, st, .ok n) := hrouter
  obtain ⟨hsettings, added, hentries, hadds⟩ :=
    (Outline.installs_install (some ∘ keyHandler) t.routes start.1 start.2 0).adds
  rw [hinstall] at hsettings hentries hadds
  have hroutes : r.routes = added := Tree.eq_of_entries hentries
  exact ⟨⟨_, _, hsettings⟩, by rw [hsettings, hroutes]; exact hadds.2⟩

end CommandLine

namespace Router

/-- What becomes of a request that is not redirected, by what dispatch has found, and the request with what a handler
may want to know. -/
def answered (r : Router H) (req : Request) : RouteMatch H → Answer H × Request
  | .matched route handler vars =>
    (handler.elim .notFound .call, { req with route := some route.info, vars := some vars })
  | .failed .methodMismatch fallback =>
    (fallback.elim .methodNotAllowed .call, { req with allowed := some (r.allowedMethods req) })
  | .failed .notFound fallback => (fallback.elim .notFound .call, req)

theorem answer_cases (r : Router H) (req : Request) (w : Wraps H) :
    (∃ location w', r.answer req w = (.redirect location, req, w')) ∨
      (r.answer req w).1.location? = none ∧ r.answer req w =
        ((r.answered req (r.dispatch req w).1).1, (r.answered req (r.dispatch req w).1).2, (r.dispatch req w).2) := by
  rw [answer]
  split
  · exact .inl ⟨_, _, rfl⟩
  · rcases hfound : r.dispatch req w with ⟨⟨route, handler, vars⟩ | ⟨_ | _, fallback⟩, w'⟩
    · dsimp only
      split
      · exact .inl ⟨_, _, rfl⟩
      · exact .inr ⟨by cases handler <;> rfl, rfl⟩
    · exact .inr ⟨by cases fallback <;> rfl, rfl⟩
    · exact .inr ⟨by cases fallback <;> rfl, rfl⟩

end Router

def RouteTable.Places (t : RouteTable) (r : Router H) (rule : Rule) (route : Route H) : Prop :=
  (rule, route) ∈ (t.routes.flatten r.settings.scope.texts).zip r.routes.flatten

namespace Report

structure SaysRedirected (p : Report) : Prop where
  status : p.status = 308
  handler : p.handler = none
  route : p.route = none
  vars : p.vars = []

/-- The report says what the router of the table has found, and which methods would do if it fails on the method. -/
structure Says (t : RouteTable) (r : Router Handler) (found : RouteMatch Handler) (allowed : List Method)
    (p : Report) : Prop where
  success : p.status = 200 ↔ ∃ route handler vars, found = .matched route (some handler) vars
  mismatch : p.status = 405 ↔ ∃ fallback, found = .failed .methodMismatch fallback
  /-- Every other request is not found. -/
  status : p.status = 200 ∨ p.status = 405 ∨ p.status = 404
  handler_isSome : p.handler.isSome ↔ p.status = 200
  /-- The handler is the key of the rule of the route. -/
  handler : ∀ key, p.handler = some key ↔
    ∃ route handler vars rule, found = .matched route (some handler) vars ∧ t.Places r rule route ∧
      rule.spec.handler = some key
  allow : p.allow = if p.status = 405 then some (", ".intercalate (allowed.map (·.name))) else none
  matched : ∀ route handler vars, found = .matched route handler vars →
    p.route = route.name ∧ p.vars = Data.sortPairs vars
  failed : ∀ e fallback, found = .failed e fallback → p.route = none ∧ p.vars = []

/-- The report on a request agrees with what the router of the table does with it. -/
def Agrees (t : RouteTable) (r : Router Handler) (req : Request) (w : Wraps Handler) (p : Report) : Prop :=
  match (r.answer req w).1.location? with
  | some _ => p.SaysRedirected
  | none => p.Says t r (r.dispatch req w).1 (r.allowedMethods req)

section Exchanges

variable (req : Request)

theorem ofExchange_notFound : ofExchange ⟨req, Response.empty.notFound⟩ =
    ⟨404, none, req.route.bind (·.name), Data.sortPairs (req.vars.getD []), none, none⟩ := by
  simp [ofExchange, Response.notFound, Response.text, Response.empty, isSuccess, Headers.put, Headers.text?,
    Headers.get?, Headers.getAll]

theorem ofExchange_methodNotAllowed {allowed : List Method} (hallowed : ∀ m ∈ allowed, isToken m.name = true) :
    ofExchange ⟨req, Response.empty.methodNotAllowed (some allowed)⟩ =
      ⟨405, none, req.route.bind (·.name), Data.sortPairs (req.vars.getD []), none,
        some (", ".intercalate (allowed.map (·.name)))⟩ := by
  have hreadable : isReadable (", ".intercalate (allowed.map (·.name))) = true :=
    Http.isReadable_intercalate (List.forall_mem_map.mpr hallowed)
  simp [ofExchange, Response.methodNotAllowed, Response.text, Response.empty, isSuccess, Headers.put, Headers.text?,
    Headers.get?, Headers.getAll, Http.isHeaderValue_of_isReadable hreadable, hreadable]

theorem ofExchange_key {info : RouteInfo} (h : req.route = some info) (key : String) :
    ofExchange ((Reply.text key).write ⟨req, .empty⟩) =
      ⟨200, some key, info.name, Data.sortPairs (req.vars.getD []), none, none⟩ := by
  simp [ofExchange, Reply.text, Reply.write, Exchange.append, Response.empty, isSuccess, Headers.text?,
    Headers.get?, Headers.getAll, h]

theorem saysRedirected_ofExchange (hroute : req.route = none) (hvars : req.vars = none) (location : String) :
    SaysRedirected (ofExchange ⟨req, Response.empty.redirect location 308⟩) :=
  ⟨rfl, rfl, by rw [ofExchange, hroute, Option.bind_none], by rw [ofExchange, hvars]; rfl⟩

end Exchanges

section Found

variable {t : RouteTable} {r : Router Handler} {allowed : List Method}

theorem says_failed (e : MatchError) :
    Says t r (.failed e none) allowed
      (match e with
        | .methodMismatch => ⟨405, none, none, [], none, some (", ".intercalate (allowed.map (·.name)))⟩
        | .notFound => ⟨404, none, none, [], none, none⟩) := by
  cases e <;> constructor <;> simp

theorem says_matched {route : Route Handler} {vars : Vars} {rule : Rule}
    (hdescribe : Outline.Describe (some ∘ CommandLine.keyHandler) (t.routes.flatten r.settings.scope.texts)
      r.routes.flatten)
    (hrule : t.Places r rule route) :
    Says t r (.matched route route.handler vars) allowed
      ⟨if rule.spec.handler.isSome then 200 else 404, rule.spec.handler, route.name, Data.sortPairs vars, none,
        none⟩ := by
  have hkeys {rule : Rule} (h : t.Places r rule route) :
      route.handler = rule.spec.handler.map CommandLine.keyHandler :=
    (hdescribe.describes h).handler.trans Option.map_eq_bind.symm
  have hmatched : ∀ route' handler vars', RouteMatch.matched route route.handler vars = .matched route' handler vars' →
      route.name = route'.name ∧ Data.sortPairs vars = Data.sortPairs vars' := by
    rintro _ _ _ ⟨⟩
    exact ⟨rfl, rfl⟩
  have hhandler := hkeys hrule
  cases hkey : rule.spec.handler with
  | none =>
    rw [hkey, Option.map_none] at hhandler
    constructor
    case matched => exact hmatched
    all_goals simp [hhandler]
  | some key =>
    rw [hkey, Option.map_some] at hhandler
    constructor
    case matched => exact hmatched
    case handler =>
      intro other
      constructor
      · rintro ⟨⟩
        exact ⟨route, _, vars, rule, by rw [hhandler], hrule, hkey⟩
      · -- a key can be told from its handler, so all rules of the route have the same key
        rintro ⟨_, _, _, other', hfound, hplace, hother⟩
        obtain ⟨rfl, -, -⟩ := RouteMatch.matched.inj hfound
        have hsame := hhandler.symm.trans (hkeys hplace)
        rw [hother] at hsame
        simpa [CommandLine.keyHandler, Reply.text] using hsame
    all_goals simp [hhandler]

end Found

end Report

theorem Request.fresh_of_ofTexts? {method url : String} {fields : List (String × String)} {tls : Option Bool}
    {req : Request} (h : ofTexts? method url fields tls = some req) : req.route = none ∧ req.vars = none := by
  simp only [ofTexts?, Option.bind_eq_bind, Option.bind_eq_some_iff] at h
  obtain ⟨_, -, _, -, _, -, hnew⟩ := h
  cases hnew
  exact ⟨rfl, rfl⟩

namespace Service

variable {service : Service} {r : Router Handler} {req req' : Request} {w w' : Wraps Handler}

theorem depth_pos (service : Service) (r : Router Handler) : 0 < service.depth r := by
  have hlayers : ∀ rs : List (Router Handler), 2 ≤ rs.foldr (fun r n => r.layerCount + n) 2 := by
    intro rs
    induction rs with
    | nil => exact le_rfl
    | cons r rs ih => exact ih.trans (Nat.le_add_left _ _)
  exact Nat.mul_pos (Nat.succ_pos _) (Nat.lt_of_lt_of_le (by decide) (hlayers _))

theorem serve_of_call {key : String} (h : r.answer req w = (.call (CommandLine.keyHandler key), req', w'))
    (res : Response) : service.serve r ⟨req, res⟩ w = ((Reply.text key).write ⟨req', res⟩, w') := by
  obtain ⟨n, hdepth⟩ := Nat.exists_eq_succ_of_ne_zero (depth_pos service r).ne'
  rw [serve, h]
  dsimp only
  rw [hdepth]
  rfl

theorem serve_of_answer {a : Answer Handler} (h : r.answer req w = (a, req', w')) (ha : ∀ g, a ≠ .call g)
    (res : Response) : service.serve r ⟨req, res⟩ w = (a.perform (fun _ ex => ex) ⟨req', res⟩, w') := by
  rw [serve, h]
  cases a with
  | call g => exact absurd rfl (ha g)
  | redirect | notFound | methodNotAllowed => rfl

/-- What the report of a bare router says of a request that is not redirected. -/
theorem says_of_answered {t : RouteTable}
    (hdescribe : Outline.Describe (some ∘ CommandLine.keyHandler) (t.routes.flatten r.settings.scope.texts)
      r.routes.flatten)
    (hroute : req.route = none) (hvars : req.vars = none) (hbare : (r.dispatch req w).1.Bare)
    (hanswer : r.answer req w =
      ((r.answered req (r.dispatch req w).1).1, (r.answered req (r.dispatch req w).1).2, (r.dispatch req w).2)) :
    Report.Says t r (r.dispatch req w).1 (r.allowedMethods req) (.ofExchange (service.serve r ⟨req, .empty⟩ w).1) := by
  rcases hfound : (r.dispatch req w).1 with ⟨route, handler, vars⟩ | ⟨_ | _, fallback⟩
  · rw [hfound] at hbare hanswer
    obtain rfl : handler = route.handler := hbare
    obtain ⟨rule, hrule⟩ := hdescribe.exists_rule (Tree.of_resolve_eq_matched hfound).1
    have hsays : Report.Says t r (.matched route route.handler vars) (r.allowedMethods req) _ :=
      Report.says_matched hdescribe hrule
    have hhandler := (hdescribe.describes hrule).handler
    cases hkey : rule.spec.handler with
    | none =>
      rw [hkey, Option.bind_none] at hhandler
      rw [hkey] at hsays
      rw [hhandler] at hanswer
      rw [serve_of_answer hanswer (by rintro _ ⟨⟩)]
      dsimp only [Answer.perform, Router.answered, Option.elim_none]
      rw [Report.ofExchange_notFound]
      exact hsays
    | some key =>
      rw [hkey, Option.bind_some] at hhandler
      rw [hkey] at hsays
      rw [hhandler] at hanswer
      rw [serve_of_call hanswer, Report.ofExchange_key _ rfl]
      exact hsays
  · rw [hfound] at hbare hanswer
    obtain rfl : fallback = none := hbare
    rw [serve_of_answer hanswer (by rintro _ ⟨⟩)]
    dsimp only [Answer.perform, Router.answered, Option.elim_none]
    rw [Report.ofExchange_methodNotAllowed _ fun m hm => hdescribe.isToken_of_mem_allowed hm, hroute, hvars]
    exact Report.says_failed .methodMismatch
  · rw [hfound] at hbare hanswer
    obtain rfl : fallback = none := hbare
    rw [serve_of_answer hanswer (by rintro _ ⟨⟩)]
    dsimp only [Answer.perform, Router.answered, Option.elim_none]
    rw [Report.ofExchange_notFound, hroute, hvars]
    exact Report.says_failed .notFound

/-- Exactly the texts of a valid request are accepted, and what is reported is what became of the request. -/
theorem dispatch_eq_ok_iff {method url : String} {headers : List String} {tls : Bool} {p : Report} :
    service.dispatch r method headers tls url w = .ok (p, w') ↔
      ∃ fields req, headers.mapM Report.splitHeader = .ok fields ∧
        Request.ofTexts? (upperAscii method) url fields (some tls) = some req ∧
        p = .ofExchange (service.serve r ⟨req, .empty⟩ w).1 ∧ w' = (service.serve r ⟨req, .empty⟩ w).2 := by
  constructor
  · intro h
    rw [dispatch] at h
    obtain ⟨fields, hfields, h⟩ := exists_of_bind_eq_ok h
    cases hreq : Request.ofTexts? (upperAscii method) url fields (some tls) with
    | none =>
      rw [hreq] at h
      cases h
    | some req =>
      rw [hreq] at h
      obtain ⟨rfl, rfl⟩ := Prod.mk.inj (Except.ok.inj h)
      exact ⟨fields, req, hfields, hreq, rfl, rfl⟩
  · rintro ⟨fields, req, hfields, hreq, rfl, rfl⟩
    rw [dispatch, hfields]
    dsimp only [bind, Except.bind]
    rw [hreq]
    rfl

end Service

namespace CommandLine

theorem agrees_of_loadRouter {env : String → Option String} {t : RouteTable} {r : Router Handler} {st : Setup}
    (hload : loadRouter env t = .ok (r, st)) (service : Service) {req : Request}
    (hfresh : req.route = none ∧ req.vars = none) (w : Wraps Handler) :
    (Report.ofExchange (service.serve r ⟨req, .empty⟩ w).1).Agrees t r req w := by
  obtain ⟨⟨key, scope, hsettings⟩, hmirrors⟩ := mirrors_of_loadRouter hload
  rw [Report.Agrees]
  rcases r.answer_cases req w with ⟨location, w', hanswer⟩ | ⟨hstays, hanswer⟩
  · rw [hanswer]
    dsimp only [Answer.location?]
    rw [Service.serve_of_answer hanswer (by rintro _ ⟨⟩)]
    exact Report.saysRedirected_ofExchange req hfresh.1 hfresh.2 location
  · have hbare : (r.dispatch req w).1.Bare := by
      rw [Router.dispatch, hsettings]
      exact Tree.resolve_bare hmirrors.bare key scope _ false w
    rw [hstays]
    exact Service.says_of_answered hmirrors.describe hfresh.1 hfresh.2 hbare hanswer

/-- The report on a request agrees with the router of the table. Every request whose texts are valid is reported on. If
the router redirects it, the report has status 308 and says nothing of a route. Otherwise its status says what dispatch
finds: success with the key that the table has for the route, failure on the method with the methods that would do, or
nothing. It names the route that was found with its variables even if that route has no handler. -/
theorem dispatch_report {env : String → Option String} {t : RouteTable} {r : Router Handler} {st : Setup}
    (hload : loadRouter env t = .ok (r, st)) (service : Service) (method url : String) (headers : List String)
    (tls : Bool) (w : Wraps Handler) :
    let spells (req : Request) : Prop := ∃ fields, headers.mapM Report.splitHeader = .ok fields ∧
      Request.ofTexts? (upperAscii method) url fields (some tls) = some req
    (∀ p w', service.dispatch r method headers tls url w = .ok (p, w') →
      ∃ req, spells req ∧ p.Agrees t r req w) ∧
    ∀ req, spells req → ∃ p w', service.dispatch r method headers tls url w = .ok (p, w') := by
  intro spells
  constructor
  · intro p w' h
    obtain ⟨fields, req, hfields, hreq, rfl, -⟩ := Service.dispatch_eq_ok_iff.mp h
    exact ⟨req, ⟨fields, hfields, hreq⟩, agrees_of_loadRouter hload service (Request.fresh_of_ofTexts? hreq) w⟩
  · rintro req ⟨fields, hfields, hreq⟩
    exact ⟨_, _, Service.dispatch_eq_ok_iff.mpr ⟨fields, req, hfields, hreq, rfl, rfl⟩⟩

/-- A route with a handler, one without, a method that neither of them takes, and a path that is cleaned. -/
theorem dispatch_report_nested :
    let shown : RouteSpec := { RouteSpec.empty with
      name := some "show", path := some "/{id:int}", methods := ["get", "HEAD"], handler := some "user" }
    let stored : RouteSpec := { RouteSpec.empty with name := some "store", path := some "/{id}", methods := ["Put"] }
    let users : RouteSpec := { RouteSpec.empty with leading := some "/users" }
    let t : RouteTable := ⟨none, .cons users (.cons shown .nil (.cons stored .nil .nil)) .nil⟩
    let reports : List (String × String × Report) := [
      ("get", "/users/7", ⟨200, some "user", some "show", [("id", "7")], none, none⟩),
      ("put", "/users/7", ⟨404, none, some "store", [("id", "7")], none, none⟩),
      ("delete", "/users/7", ⟨405, none, none, [], none, some "GET, HEAD, PUT"⟩),
      ("get", "/users//7", ⟨308, none, none, [], some "/users/7", none⟩)]
    ∃ r st, loadRouter (fun _ => none) t = .ok (r, st) ∧ ∀ x ∈ reports,
      (Service.dispatch [] r x.1 [] false x.2.1 .new).map (·.1) = .ok x.2.2 ∧
        ∃ req, Request.ofTexts? (upperAscii x.1) x.2.1 [] (some false) = some req ∧ x.2.2.Agrees t r req .new := by
  intro shown stored users t reports
  have hfacts : (t.router (fun _ => none) (some ∘ keyHandler)).2.2 = .ok 3 ∧ ∀ x ∈ reports,
      (Service.dispatch [] (t.router (fun _ => none) (some ∘ keyHandler)).1 x.1 [] false x.2.1 .new).map (·.1) =
        .ok x.2.2 := by
    decide +kernel
  rcases hrouter : t.router (fun _ => none) (some ∘ keyHandler) with ⟨r, st, loaded⟩
  rw [hrouter] at hfacts
  obtain ⟨rfl, hreports⟩ := hfacts
  have hload : loadRouter (fun _ => none) t = .ok (r, st) := loadRouter_eq_ok_iff.mpr ⟨3, hrouter⟩
  refine ⟨r, st, hload, fun x hx => ⟨hreports x hx, ?_⟩⟩
  obtain ⟨⟨p, w'⟩, hdispatch, hp⟩ := exists_of_map_eq_ok (hreports x hx)
  obtain ⟨req, ⟨fields, hfields, hreq⟩, hagrees⟩ := (dispatch_report hload [] x.1 x.2.1 [] false .new).1 p w' hdispatch
  cases hfields
  exact ⟨req, hreq, hp ▸ hagrees⟩

end CommandLine

end RequestRouter
