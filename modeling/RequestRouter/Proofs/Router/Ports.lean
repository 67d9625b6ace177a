import RequestRouter.Proofs.Dispatch.Methods
import RequestRouter.Proofs.Router.Building
import RequestRouter.Proofs.Router.Inheritance
import RequestRouter.Router.Shown
/-!
Ports in the host of a request. Without its port the host of a request is the same whether a port was sent or not, and
that is all a host template looks at unless its literal text has a colon. With a colon in brackets it misses names,
with or without a port.
-/
namespace RequestRouter

open RequestRouter.Http RequestRouter.Text

variable {H : Type}

namespace Http

/-- A character that is not a letter is in lower case only what it was. -/
theorem toLower_eq_iff {c x : Char} (hc : c ∈ [':', '@', '[', ']']) : x.toLower = c ↔ x = c := by
  constructor
  · rintro rfl
    by_cases h : x.toNat < 128
    · exact Utf8.forall_ascii (P := fun x => x.toLower ∈ [':', '@', '[', ']'] → x = x.toLower)
        (by decide +kernel) x h hc
    · exact (toLower_of_le (Nat.le_of_not_lt h)).symm
  · rintro rfl
    simp only [List.mem_cons, List.not_mem_nil, or_false] at hc
    rcases hc with rfl | rfl | rfl | rfl <;> rfl

theorem toNat_of_isDigit {c : Char} (h : c.isDigit = true) : 48 ≤ c.toNat ∧ c.toNat ≤ 57 := by
  simp only [Char.isDigit, Bool.and_eq_true, decide_eq_true_eq, UInt32.le_iff_toNat_le] at h
  exact h

theorem toLower_of_isDigit {c : Char} (h : c.isDigit = true) : c.toLower = c :=
  Utf8.forall_ascii (P := fun c => c.isDigit = true → c.toLower = c)
    (by decide +kernel) c (Nat.lt_of_le_of_lt (toNat_of_isDigit h).2 (by decide)) h

theorem mem_map_toLower {c : Char} {s : List Char} (hc : c ∈ [':', '@', '[', ']']) :
    c ∈ s.map Char.toLower ↔ c ∈ s := by
  simp only [List.mem_map, toLower_eq_iff hc, exists_eq_right]

theorem head?_map_toLower (s : List Char) : (s.map Char.toLower).head? = some '[' ↔ s.head? = some '[' := by
  cases s with
  | nil => rfl
  | cons c s => simp [toLower_eq_iff]

theorem map_toLower_digits {s : List Char} (h : ∀ c ∈ s, c.isDigit = true) : s.map Char.toLower = s :=
  (List.map_congr_left fun c hc => toLower_of_isDigit (h c hc)).trans (List.map_id' s)

end Http

section Ports

variable {c : Char} {s front back host port : List Char}

theorem cutLast_eq_none (h : c ∉ s) : cutLast c s = none := by
  induction s with
  | nil => rfl
  | cons x s ih =>
    rw [List.mem_cons, not_or] at h
    rw [cutLast, ih h.2]
    exact if_neg (Ne.symm h.1)

theorem cutLast_append (h : c ∉ back) : cutLast c (front ++ c :: back) = some (front, back) := by
  induction front with
  | nil =>
    rw [List.nil_append, cutLast, cutLast_eq_none h]
    exact if_pos rfl
  | cons x front ih => rw [List.cons_append, cutLast, ih]

/-- The name of a host or a literal in brackets, in either case without a port. -/
def IsHostName (host : List Char) : Prop := if host.head? = some '[' then ']' ∈ host else ':' ∉ host

instance (host : List Char) : Decidable (IsHostName host) :=
  inferInstanceAs (Decidable (if host.head? = some '[' then ']' ∈ host else ':' ∉ host))

theorem not_mem_of_digits (h : ∀ x ∈ port, x.isDigit = true) (hc : c.isDigit = false) : c ∉ port :=
  fun hmem => Bool.false_ne_true (hc.symm.trans (h c hmem))

theorem stripPort_append (hhost : IsHostName host) (hport : ∀ c ∈ port, c.isDigit = true) :
    stripPort (host ++ ':' :: port) = stripPort host := by
  by_cases hbracket : host.head? = some '['
  · rw [IsHostName, if_pos hbracket] at hhost
    have happend : (host ++ ':' :: port).head? = some '[' := by
      rw [List.head?_append, hbracket]
      rfl
    have hshort : (host.takeWhile (· != ']')).length ≠ host.length := fun hlength => by
      have hall := List.takeWhile_prefix (· != ']') |>.eq_of_length hlength
      have := List.takeWhile_eq_self_iff.mp hall ']' hhost
      simp at this
    simp [stripPort, happend, hbracket, hhost, List.takeWhile_append, hshort]
  · rw [IsHostName, if_neg hbracket] at hhost
    have happend : (host ++ ':' :: port).head? ≠ some '[' := by
      cases host with
      | nil => simp
      | cons x host => exact hbracket
    rw [stripPort, stripPort, if_neg happend, if_neg hbracket,
      cutLast_append (not_mem_of_digits hport rfl), cutLast_eq_none hhost]
    exact if_pos (List.all_eq_true.mpr hport)

theorem IsHostName.lower (h : IsHostName host) : IsHostName (host.map Char.toLower) := by
  unfold IsHostName at h ⊢
  simpa only [head?_map_toLower, mem_map_toLower (c := ':') (by decide), mem_map_toLower (c := ']') (by decide)] using h

end Ports

namespace Request

variable {req : Request} {text port : String}

theorem host_of_header (hauthority : req.uri.authority = none) (h : req.headers.get? ⟨"host"⟩ = some text)
    (hat : '@' ∉ text.toList) : req.host = if isReadable text then text.toList.map Char.toLower else [] := by
  rw [host, hauthority, Headers.text?, h, Option.getD_none]
  cases hread : isReadable text with
  | true => simp [Option.filter, hread, cutLast_eq_none hat]
  | false => simp [Option.filter, hread, cutLast]

theorem host_of_authority {headers : Headers} (h : req.uri.authority.isSome = true) :
    ({ req with headers } : Request).host = req.host := by
  obtain ⟨text, htext⟩ := Option.isSome_iff_exists.mp h
  simp [host, htext]

end Request

theorem Http.isReadable_port {text port : String} (hport : ∀ c ∈ port.toList, c.isDigit = true) :
    isReadable (text ++ ":" ++ port) = isReadable text := by
  have hdigits : isReadable port = true := by
    refine List.all_eq_true.mpr fun c hc => ?_
    obtain ⟨hle, hge⟩ := toNat_of_isDigit (hport c hc)
    simp only [Bool.or_eq_true, Bool.and_eq_true, decide_eq_true_eq]
    exact .inl ⟨by omega, by omega⟩
  unfold isReadable at hdigits ⊢
  simp [String.toList_append, List.all_append, hdigits]

/-- The views of two requests that differ in their headers, and in their hosts by a port at most. If a name was sent
for the host, there is no other colon. -/
structure View.PortApart (sent : String) (v v' : View) : Prop where
  method : v'.request.method = v.request.method
  scheme : v'.request.scheme = v.request.scheme
  host : v'.host = v.host ∨ ∃ port, v'.host.toList = v.host.toList ++ ':' :: port ∧
    (∀ c ∈ port, c.isDigit = true) ∧ (sent.toList.head? ≠ some '[' → ':' ∉ v.host.toList)
  hostWithoutPort : v'.hostWithoutPort = v.hostWithoutPort
  rawPath : v'.rawPath = v.rawPath
  decodedPath : v'.decodedPath = v.decodedPath
  query : v'.query = v.query

theorem View.of_port {req : Request} {headers : Headers} {text port : String}
    (hhost : req.headers.get? ⟨"host"⟩ = some text) (hport : headers.get? ⟨"host"⟩ = some (text ++ ":" ++ port))
    (hname : IsHostName text.toList) (hat : '@' ∉ text.toList) (hdigits : ∀ c ∈ port.toList, c.isDigit = true) :
    View.PortApart text (.of req) (.of { req with headers }) := by
  have hosts : ({ req with headers } : Request).host = req.host ∨ req.host = text.toList.map Char.toLower ∧
      ({ req with headers } : Request).host = req.host ++ ':' :: port.toList := by
    cases hauthority : req.uri.authority with
    | some _ => exact .inl (Request.host_of_authority (by simp [hauthority]))
    | none =>
      have hat' : '@' ∉ (text ++ ":" ++ port).toList := by
        simpa [String.toList_append, hat] using not_mem_of_digits (c := '@') hdigits rfl
      have hsent : ({ req with headers } : Request).host = _ := Request.host_of_header hauthority hport hat'
      rw [hsent, Request.host_of_header hauthority hhost hat, isReadable_port hdigits]
      cases isReadable text with
      | false => exact .inl rfl
      | true =>
        refine .inr ⟨rfl, ?_⟩
        simp only [if_true, String.toList_append, List.map_append, map_toLower_digits hdigits, List.append_assoc]
        rfl
  refine ⟨rfl, rfl, ?_, ?_, rfl, rfl, rfl⟩
  · rcases hosts with heq | ⟨hlower, heq⟩
    · exact .inl (congrArg String.ofList heq)
    · refine .inr ⟨port.toList, by simp [View.of, heq], hdigits, fun hplain => ?_⟩
      rw [IsHostName, if_neg hplain] at hname
      rw [View.of, hlower, String.toList_ofList, mem_map_toLower (by decide)]
      exact hname
  · refine congrArg String.ofList ?_
    rcases hosts with heq | ⟨hlower, heq⟩
    · rw [heq]
    · rw [heq, stripPort_append (hlower ▸ hname.lower) hdigits]

namespace Cut

variable {kind : TemplateKind} {text tail : List Char} {spans : List (List Char × List Char)} {i j : Nat}

theorem SpansFrom.sublist (h : SpansFrom kind text tail spans i j) :
    ((spans.flatMap fun span => Template.literalText kind span.1) ++ Template.literalText kind tail).Sublist
      (text.drop i) := by
  induction spans generalizing i with
  | nil => exact h.1.sublist
  | cons span rest ih =>
    obtain ⟨k, m, e, ⟨⟨behind, hbefore⟩, rfl⟩, -, hspan, hrest⟩ := h
    have hbehind : text.drop (i + (Template.literalText kind span.1).length) = behind := drop_add hbefore.symm
    have hlater : (text.drop m).Sublist behind := hbehind ▸ List.drop_sublist_drop_left text hspan.le
    rw [List.flatMap_cons, List.append_assoc, ← hbefore]
    exact (List.Sublist.refl _).append ((ih hrest).trans hlater)

end Cut

namespace Template

variable {t : Template} {text host : String}

theorem flatMap_before {kind : TemplateKind} {spans : List (List Char × List Char)} {slots : List Slot}
    (h : List.Forall₂ (Slot.Made kind) spans slots) :
    slots.flatMap (·.before) = spans.flatMap fun span => literalText kind span.1 := by
  induction h with
  | nil => rfl
  | cons hs _ ih => rw [List.flatMap_cons, List.flatMap_cons, hs.before, ih]

theorem IsCompiled.literals_eq (h : t.IsCompiled) (hk : t.kind = .host) : ∃ cut, t.Built cut ∧ t.literals =
    (cut.spans.flatMap fun span => literalText t.kind span.1) ++ literalText t.kind cut.tail := by
  obtain ⟨cut, hcut⟩ := h.built
  obtain ⟨slash, htail, hslash⟩ := hcut.tail
  have hnil : slash = [] := hslash.resolve_right fun h => by simp [Strict, hk] at h
  exact ⟨cut, hcut, by rw [literals, htail, hnil, List.append_nil, flatMap_before hcut.slots]⟩

theorem IsCompiled.ignoresPort_of_not_mem (h : t.IsCompiled) (hk : t.kind = .host) (hcolon : ':' ∉ t.literals) :
    t.ignoresPort = true := by
  obtain ⟨cut, hcut, hliterals⟩ := h.literals_eq hk
  rw [hliterals, List.mem_append, List.mem_flatMap] at hcolon
  push Not at hcolon
  exact hcut.ignoresPort_iff.mpr ⟨hk, hcolon⟩

/-- What stands in the literal text of a host template stands in every host that it matches. -/
theorem IsCompiled.literals_sublist (h : t.IsCompiled) (hk : t.kind = .host) (hown : t.OnTheirOwn) {isMount : Bool}
    (hcaptures : (if isMount then t.capturesSuffix text else t.captures text).isSome = true) :
    t.literals.Sublist text.toList := by
  obtain ⟨cut, hcut, hliterals⟩ := h.literals_eq hk
  obtain ⟨i, hspans⟩ := hcut.spans_host hk hown hcaptures
  exact hliterals ▸ (Cut.SpansFrom.sublist hspans).trans (List.drop_sublist i _)

/-- Whether a port was sent with the host does not matter for the template: its literal text has no colon, or it has
one in brackets while a name was sent. -/
def BlindToPorts (t : Template) (sent : String) : Prop :=
  ':' ∉ t.literals ∨ sent.toList.head? ≠ some '[' ∧ [':', ']'].Sublist t.literals ∧ t.OnTheirOwn

/-- In a name with a port the colon is the last character but for digits. -/
theorem not_sublist_of_port {name port : List Char} (hname : ':' ∉ name) (hport : ∀ c ∈ port, c.isDigit = true) :
    ¬ [':', ']'].Sublist (name ++ ':' :: port) := by
  intro h
  obtain ⟨front, back, heq, hfront, hback⟩ := List.sublist_append_iff.mp h
  cases front with
  | cons c front =>
    obtain ⟨rfl, -⟩ := List.cons_eq_cons.mp heq
    exact hname (hfront.subset List.mem_cons_self)
  | nil =>
    obtain rfl : back = [':', ']'] := heq.symm
    exact not_mem_of_digits (c := ']') hport rfl (List.singleton_sublist.mp (List.cons_sublist_cons.mp hback))

theorem IsCompiled.captures_port (h : t.IsCompiled) (hk : t.kind = .host) {sent : String} {v v' : View}
    (hview : v.PortApart sent v') (hblind : t.BlindToPorts sent) (isMount : Bool) :
    (if isMount then t.capturesSuffix (v'.hostFor t) else t.captures (v'.hostFor t)) =
      if isMount then t.capturesSuffix (v.hostFor t) else t.captures (v.hostFor t) := by
  rcases hblind with hcolon | ⟨hplain, hbrackets, hown⟩
  · have hignores := h.ignoresPort_of_not_mem hk hcolon
    simp only [View.hostFor, hignores, if_true, hview.hostWithoutPort]
  · by_cases hignores : t.ignoresPort = true
    · simp only [View.hostFor, hignores, if_true, hview.hostWithoutPort]
    -- With its port the host is looked at as it was sent; a bracket behind a colon is in neither of the two.
    · simp only [View.hostFor, hignores, if_false, Bool.false_eq_true]
      rcases hview.host with heq | ⟨port, heq, hdigits, hname⟩
      · rw [heq]
      · have hmisses {text : String} (htext : ¬ [':', ']'].Sublist text.toList) :
            (if isMount then t.capturesSuffix text else t.captures text) = none :=
          Option.not_isSome_iff_eq_none.mp fun hsome => htext (hbrackets.trans (h.literals_sublist hk hown hsome))
        rw [hmisses (heq ▸ not_sublist_of_port (hname hplain) hdigits),
          hmisses fun hsub => hname hplain (hsub.subset List.mem_cons_self)]

end Template

/-- The condition looks at the method or at the scheme of a request only. -/
def Matcher.IgnoresHeaders : Matcher → Prop
  | methods _ | schemes _ => True
  | _ => False

instance : DecidablePred Matcher.IgnoresHeaders
  | .methods _ | .schemes _ => inferInstanceAs (Decidable True)
  | .headers _ | .headerPatterns _ | .custom _ => inferInstanceAs (Decidable False)

namespace Route

variable {r : Route H} {sent : String} {v v' : View}

/-- Whether a port was sent does not matter for the conditions and the host of the route. -/
structure BlindToPorts (r : Route H) (sent : String) : Prop where
  matchers : ∀ m ∈ r.matchers, m.IgnoresHeaders
  host : ∀ t, r.host = some t → t.BlindToPorts sent

theorem BlindToPorts.judge (h : r.BlindToPorts sent) (hview : v.PortApart sent v') :
    r.judge v'.request = r.judge v.request := by
  have hsame : r.matchers.map (·.judge v'.request) = r.matchers.map (·.judge v.request) := by
    refine List.map_congr_left fun m hm => ?_
    cases m with
    | methods ms => simp only [Matcher.judge, hview.method]
    | schemes ss => simp only [Matcher.judge, hview.scheme]
    | headers | headerPatterns | custom => exact (h.matchers _ hm).elim
  simp only [Route.judge, hsame]

theorem BlindToPorts.capture (h : r.BlindToPorts sent) (hview : v.PortApart sent v')
    (hcompiled : ∀ t, r.host = some t → t.IsCompiled ∧ t.kind = .host) (isMount : Bool) :
    r.capture v' isMount = r.capture v isMount := by
  have hquery (key : String) : v'.queryValue? key = v.queryValue? key := by
    rw [View.queryValue?, View.queryValue?, hview.query]
  have hpath (encoded : Bool) : v'.path encoded = v.path encoded := by
    rw [View.path, View.path, hview.rawPath, hview.decodedPath]
  simp only [Route.capture, hquery, hpath]
  cases hhost : r.host with
  | none => rfl
  | some t =>
    obtain ⟨ht, hk⟩ := hcompiled t hhost
    have hsame := ht.captures_port hk hview (h.host t hhost) isMount
    cases isMount <;> simp only [Bool.false_eq_true, if_true, if_false] at hsame ⊢ <;> rw [hsame]

theorem BlindToPorts.check (h : r.BlindToPorts sent) (hview : v.PortApart sent v')
    (hcompiled : ∀ t, r.host = some t → t.IsCompiled ∧ t.kind = .host) (isMount : Bool) :
    r.check v' isMount = r.check v isMount := by
  rw [check_eq, check_eq, h.judge hview, h.capture hview hcompiled]

end Route

theorem Tree.resolve_congr {t : Tree H} {v v' : View}
    (h : ∀ r ∈ t.flatten, ∀ isMount, r.check v' isMount = r.check v isMount) (s : Settings H) (mismatch : Bool)
    (w : Wraps H) : t.resolve s v' mismatch w = t.resolve s v mismatch w := by
  induction t generalizing s mismatch w with
  | nil => rfl
  | leaf r rest ih =>
    obtain ⟨hr, hrest⟩ := List.forall_mem_cons.mp h
    simp only [resolve, hr, ih hrest]
  | mount r below inner rest ihInner ihRest =>
    obtain ⟨hr, hbelow⟩ := List.forall_mem_cons.mp h
    obtain ⟨hinner, hrest⟩ := List.forall_mem_append.mp hbelow
    simp only [resolve, hr, ihInner hinner, ihRest hrest]

theorem Router.Sound.valid_of_leads {late : RouteId → Prop} {r : Router H} (h : r.Sound late)
    {way : List (Route H × Router H)} {e : Entry H} (hway : r.Leads way e) : e.route.innerScope.Valid := by
  induction hway with
  | here he =>
    obtain ⟨-, hplaced, -, -⟩ := h
    exact (hplaced _ he).valid
  | through hmount _ ih =>
    obtain ⟨-, -, -, hbelow⟩ := h
    exact ih (hbelow _ hmount _ rfl)

namespace Session

/-- At every moment of every history of a tree a router dispatches a request in the same way whether a port was sent
with its host or not. The host is a name or a literal in brackets, without user information; no condition of a route
looks at headers or is one of the caller's own; and no host template has a colon in its literal text, or, if a name was
sent, one has it in brackets and its constraints are patterns on their own. -/
theorem run_ignores_port {cache : PatternCache} (hcache : cache.Faithful) (history : List (Action H)) {R : Router H}
    (hR : ((new cache).run history).root.Has R) {host port : String} (hname : IsHostName host.toList)
    (hat : '@' ∉ host.toList) (hport : ∀ c ∈ port.toList, c.isDigit = true)
    (hroutes : ∀ r ∈ R.routes.flatten, r.BlindToPorts host) {req : Request} {headers : Headers}
    (hhost : req.headers.get? ⟨"host"⟩ = some host) (hsent : headers.get? ⟨"host"⟩ = some (host ++ ":" ++ port))
    (w : Wraps H) : R.dispatch { req with headers } w = R.dispatch req w := by
  have hview := View.of_port hhost hsent hname hat hport
  refine Tree.resolve_congr (fun r hr isMount => ?_) R.settings false w
  obtain ⟨way, sub, hway⟩ := Router.exists_leads hr
  obtain ⟨front, hfront⟩ := hR.leads hway
  have hvalid := (run_inherits hcache history).root.1.valid_of_leads hfront
  exact (hroutes r hr).check hview hvalid.host isMount

/-- A literal in brackets is one of the hosts, and a mount with a variable takes a name at the end of a longer one. -/
theorem run_ignores_port_below_mount :
    let moves : List (Move Unit) := [.route, .call (.host "[::1]"), .call (.handler ()), .route,
      .call (.host "{tenant}.example.com"), .call (.schemes ["http"]), .enter, .route, .call (.host "{svc}"),
      .call (.methods ["get"]), .call (.handler ())]
    let root := ((new .new).run (moves.map .move)).root
    let req (host : String) : Request := .new .get ⟨none, none, "/", none⟩ [(⟨"host"⟩, host)] none
    (root.dispatch (req "Api.acme.example.com:8080") .new).1.shown =
      (RouteMatch.matched (.new .root 2) (some ()) [("svc", "api"), ("tenant", "acme")] : RouteMatch Unit).shown := by
  intro moves root req
  have hall : ∀ r ∈ root.routes.flatten, (∀ m ∈ r.matchers, m.IgnoresHeaders) ∧ ∀ t ∈ r.host.toList,
      ':' ∉ t.literals ∨ t.literals = "[::1]".toList ∧ Template.constraints t.kind t.source = [] := by
    decide +kernel
  have hroutes : ∀ r ∈ root.routes.flatten, r.BlindToPorts "Api.acme.example.com" := fun r hr => by
    refine ⟨(hall r hr).1, fun t ht => ?_⟩
    rcases (hall r hr).2 t (Option.mem_toList.mpr ht) with hcolon | ⟨hliterals, hnone⟩
    · exact .inl hcolon
    · refine .inr ⟨by decide, hliterals ▸ by decide, ?_⟩
      rw [Template.OnTheirOwn, hnone]
      exact List.forall_mem_nil _
  have hname : (root.dispatch (req "Api.acme.example.com") .new).1.shown =
      (RouteMatch.matched (.new .root 2) (some ()) [("svc", "api"), ("tenant", "acme")] : RouteMatch Unit).shown := by
    decide +kernel
  have hdigits : ∀ c ∈ "8080".toList, c.isDigit = true := List.all_eq_true.mp (by decide)
  have hhost : (req "Api.acme.example.com").headers.get? ⟨"host"⟩ = some "Api.acme.example.com" := by decide +kernel
  have hsent : (req "Api.acme.example.com:8080").headers.get? ⟨"host"⟩ =
      some ("Api.acme.example.com" ++ ":" ++ "8080") := by decide +kernel
  have hsame := run_ignores_port PatternCache.faithful_new (moves.map .move) (.self root) (by decide) (by decide)
    hdigits hroutes hhost hsent .new
  exact (congrArg (·.1.shown) hsame).trans hname

/-- With a literal in brackets for its host a route takes a request without a port and misses it with one. -/
theorem run_ignores_port_bracketed :
    let moves : List (Move Unit) := [.route, .call (.host "[::1]"), .call (.handler ())]
    let root := ((new .new).run (moves.map .move)).root
    let req (host : String) : Request := .new .get ⟨none, none, "/", none⟩ [(⟨"host"⟩, host)] none
    IsHostName "[::1]".toList ∧
      (root.dispatch (req "[::1]") .new).1.shown =
        (RouteMatch.matched (.new .root 0) (some ()) [] : RouteMatch Unit).shown ∧
      (root.dispatch (req "[::1]:8080") .new).1.shown = (RouteMatch.failed .notFound none : RouteMatch Unit).shown := by
  decide +kernel

end Session

end RequestRouter
