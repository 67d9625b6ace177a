import RequestRouter.Proofs.Path.Clean
import RequestRouter.Proofs.Router.Mounts
/-!
Where routes come from. A root router hands down nothing but its switches; a route is what calls make of a new
one, and what it hands down is the scope of the router below it. Whatever the calls, also those that fail, every
template is compiled, every path is rooted, and the scheme of URLs is in lower case.
-/
namespace RequestRouter

open RequestRouter.Http

variable {H : Type}

namespace Http

theorem toLower_of_le {c : Char} (h : 128 ≤ c.toNat) : c.toLower = c := by
  unfold Char.toLower
  split
  · rename_i hupper
    have hle : c.toNat ≤ 'Z'.toNat := UInt32.le_iff_toNat_le.mp hupper.2
    exact absurd (Nat.le_trans h hle) (by decide)
  · rfl

theorem toLower_toLower (c : Char) : c.toLower.toLower = c.toLower := by
  by_cases h : c.toNat < 128
  · exact Text.Utf8.forall_ascii (P := fun c => c.toLower.toLower = c.toLower) (by decide +kernel) c h
  · rw [toLower_of_le (Nat.le_of_not_lt h), toLower_of_le (Nat.le_of_not_lt h)]

theorem lowerAscii_lowerAscii (s : String) : lowerAscii (lowerAscii s) = lowerAscii s := by
  rw [lowerAscii, lowerAscii, String.toList_ofList, List.map_map]
  congr 1
  exact List.map_congr_left fun c _ => toLower_toLower c

end Http

theorem Call.isPrefix_trimSlashes (s : List Char) : trimSlashes s <+: s := by
  rw [trimSlashes, ← List.reverse_suffix, List.reverse_reverse]
  exact List.dropWhile_suffix _

/-- What a router hands down is in order: the templates are compiled, each in its place, the path is rooted, and
the scheme of URLs is in lower case. -/
structure Scope.Valid (s : Scope) : Prop extends s.IsCompiled where
  rooted : ∀ t, s.path = some t → Path.Rooted t.source.toList
  queries : ∀ t ∈ s.queries, t.IsCompiled ∧ t.kind = .query
  buildScheme : ∀ x, s.buildScheme = some x → lowerAscii x = x

def Route.MadeIn (scope : Scope) (r : Route H) : Prop :=
  ∃ (id : RouteId) (st : Setup) (calls : List (Call H)), st.cache.Faithful ∧
    (Call.applyAll calls (.new scope id) st).1 = r

/-- The scopes of the routers of a tree: a root hands down nothing but its switches, and a router below a route
hands down what the route stands for, with switches of its own. -/
inductive Scope.Arises (H : Type) : Scope → Prop
  | root (strict skip encoded : Bool) :
    Arises H { Scope.root with strictSlash := strict, skipClean := skip, useEncodedPath := encoded }
  | sub {scope : Scope} {r : Route H} (strict skip encoded : Bool) (hscope : Arises H scope)
    (hr : r.MadeIn scope) :
    Arises H { r.innerScope with strictSlash := strict, skipClean := skip, useEncodedPath := encoded }

/-- The route is one of a router of some tree. -/
def Route.Arises (r : Route H) : Prop := ∃ scope, Scope.Arises H scope ∧ r.MadeIn scope

namespace Scope.Valid

variable {r r' : Route H}

theorem root (strict skip encoded : Bool) :
    Valid { Scope.root with strictSlash := strict, skipClean := skip, useEncodedPath := encoded } where
  toIsCompiled := Scope.isCompiled_of_none rfl rfl
  rooted := nofun
  queries := nofun
  buildScheme := nofun

theorem withFlags {s : Scope} (h : s.Valid) (strict skip encoded : Bool) :
    Valid { s with strictSlash := strict, skipClean := skip, useEncodedPath := encoded } :=
  ⟨⟨h.host, h.path⟩, h.rooted, h.queries, h.buildScheme⟩

/-- What a call does beside the templates and the scheme does not matter. -/
theorem of_eq (h : r.innerScope.Valid) (hhost : r'.host = r.host) (hpath : r'.path = r.path)
    (hqueries : r'.queries = r.queries) (hscheme : r'.buildScheme = r.buildScheme) : r'.innerScope.Valid where
  host := fun t ht => h.host t (hhost.symm.trans ht)
  path := fun t ht => h.path t (hpath.symm.trans ht)
  rooted := fun t ht => h.rooted t (hpath.symm.trans ht)
  queries := fun t ht => h.queries t (hqueries.subst (motive := (t ∈ ·)) ht)
  buildScheme := fun x hx => h.buildScheme x (hscheme.symm.trans hx)

theorem withHost (h : r.innerScope.Valid) {t : Template} (ht : t.IsCompiled) (hk : t.kind = .host) :
    ({ r with host := some t } : Route H).innerScope.Valid where
  host := by
    rintro _ ⟨⟩
    exact ⟨ht, hk⟩
  path := h.path
  rooted := h.rooted
  queries := h.queries
  buildScheme := h.buildScheme

theorem withPath (h : r.innerScope.Valid) {t : Template} (ht : t.IsCompiled)
    (hk : t.kind = .path ∨ t.kind = .leading) (hrooted : Path.Rooted t.source.toList) :
    ({ r with path := some t } : Route H).innerScope.Valid where
  host := h.host
  path := by
    rintro _ ⟨⟩
    exact ⟨ht, hk⟩
  rooted := by
    rintro _ ⟨⟩
    exact hrooted
  queries := h.queries
  buildScheme := h.buildScheme

theorem withQuery (h : r.innerScope.Valid) {t : Template} (ht : t.IsCompiled) (hk : t.kind = .query) :
    ({ r with queries := r.queries ++ [t] } : Route H).innerScope.Valid where
  host := h.host
  path := h.path
  rooted := h.rooted
  queries := by
    intro q hq
    rcases List.mem_append.mp hq with hq | hq
    · exact h.queries q hq
    · rw [List.mem_singleton.mp hq]
      exact ⟨ht, hk⟩
  buildScheme := h.buildScheme

end Scope.Valid

namespace Call

variable {r : Route H} {st : Setup}

theorem rooted_fullPath {scope : Scope} (h : scope.Valid) {template : String} (ht : Path.Rooted template.toList) :
    Path.Rooted (fullPath scope template).toList := by
  cases hpath : scope.path with
  | none => simpa [fullPath, hpath] using ht
  | some parent =>
    have hparent := (h.rooted parent hpath).mono (isPrefix_trimSlashes _)
    simpa [fullPath, hpath, String.toList_append] using hparent.append ht

theorem setHost_valid (h : r.innerScope.Valid) (hc : st.cache.Faithful) (template : String) :
    (setHost template r st).route.innerScope.Valid := by
  simp only [setHost]
  split
  · exact h
  · rename_i t st' heq
    obtain ⟨hcompiled, hkind, -, -⟩ := compile_spec hc heq
    exact h.withHost hcompiled hkind

theorem setPath_valid (hs : r.scope.Valid) (h : r.innerScope.Valid) (hc : st.cache.Faithful) (template : String)
    {kind : TemplateKind} (hk : kind = .path ∨ kind = .leading) :
    (setPath template kind r st).route.innerScope.Valid := by
  simp only [setPath]
  split
  · exact h
  · rename_i hslash
    have hrooted : Path.Rooted template.toList := by
      by_cases hempty : template.isEmpty = true
      · exact .inl (by simpa using hempty)
      · exact .inr (by simpa [hempty] using hslash)
    split
    · exact h
    · rename_i t st' heq
      obtain ⟨hcompiled, rfl, hsource, -⟩ := compile_spec hc heq
      exact h.withPath hcompiled hk (hsource ▸ rooted_fullPath hs hrooted)

theorem addQueries_valid (h : r.innerScope.Valid) (hc : st.cache.Faithful) (pairs : List (String × String)) :
    (addQueries pairs r st).route.innerScope.Valid := by
  induction pairs generalizing r st with
  | nil => exact h
  | cons p rest ih =>
    simp only [addQueries]
    split
    · exact h
    · rename_i t st' heq
      obtain ⟨hcompiled, hkind, -, hc'⟩ := compile_spec hc heq
      exact ih (h.withQuery hcompiled hkind) hc'

theorem addSchemes_valid (h : r.innerScope.Valid) (names : List String) :
    (addSchemes names r).innerScope.Valid := by
  simp only [addSchemes, addMatcher]
  split
  · exact h.of_eq rfl rfl rfl rfl
  · refine ⟨⟨h.host, h.path⟩, h.rooted, h.queries, fun x hx => ?_⟩
    rcases Option.or_eq_some_iff.mp hx with hfirst | ⟨-, hold⟩
    · obtain ⟨name, -, rfl⟩ := List.mem_map.mp (List.mem_of_head? hfirst)
      exact lowerAscii_lowerAscii name
    · exact h.buildScheme x hold

theorem attempt_valid (hs : r.scope.Valid) (h : r.innerScope.Valid) (hc : st.cache.Faithful) (c : Call H) :
    (c.attempt r st).route.innerScope.Valid := by
  cases c with
  | path t => exact setPath_valid hs h hc t (.inl rfl)
  | leading t => exact setPath_valid hs h hc t (.inr rfl)
  | host t => exact setHost_valid h hc t
  | queries pairs => exact addQueries_valid h hc pairs
  | schemes names => exact addSchemes_valid h names
  | methods names | headers names | headerPatterns names =>
    simp only [attempt]
    split <;> exact h.of_eq rfl rfl rfl rfl
  | name n =>
    simp only [attempt, setName]
    split
    · exact h
    · split <;> exact h.of_eq rfl rfl rfl rfl
  | matcher | transform | buildOnly | handler => exact h.of_eq rfl rfl rfl rfl

theorem applyAll_valid (hs : r.scope.Valid) (h : r.innerScope.Valid) (hc : st.cache.Faithful)
    (calls : List (Call H)) : (applyAll calls r st).1.innerScope.Valid := by
  induction calls generalizing r st with
  | nil => exact h
  | cons c calls ih =>
    rw [applyAll_cons, apply]
    split
    · exact ih hs h hc
    · have hattempt := attempt_valid hs h hc c
      dsimp only
      cases hfault : (c.attempt r st).fault with
      | some e =>
        rw [applyAll_of_error calls rfl]
        exact hattempt.of_eq rfl rfl rfl rfl
      | none =>
        have hconfigured := attempt_configured (.refl r hc) c hfault
        refine ih ?_ (hattempt.of_eq rfl rfl rfl rfl) hconfigured.cache
        exact hconfigured.scope.symm ▸ hs

end Call

theorem Scope.Valid.of_madeIn {scope : Scope} {r : Route H} (h : scope.Valid) (hr : r.MadeIn scope) :
    r.innerScope.Valid := by
  obtain ⟨id, st, calls, hc, rfl⟩ := hr
  have hnew : (Route.new scope id : Route H).innerScope.Valid := ⟨⟨h.host, h.path⟩, h.rooted, h.queries, h.buildScheme⟩
  exact Call.applyAll_valid h hnew hc calls

theorem Scope.Arises.valid {scope : Scope} (h : Scope.Arises H scope) : scope.Valid := by
  induction h with
  | root strict skip encoded => exact .root strict skip encoded
  | sub strict skip encoded _ hr ih => exact (ih.of_madeIn hr).withFlags strict skip encoded

theorem Route.Arises.valid {r : Route H} (h : r.Arises) : r.innerScope.Valid := by
  obtain ⟨scope, hscope, hr⟩ := h
  exact hscope.valid.of_madeIn hr

end RequestRouter
