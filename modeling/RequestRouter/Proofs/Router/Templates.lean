import RequestRouter.Proofs.Pattern.Compiled
import RequestRouter.Router.Tree
/-!
The templates of a route that configuration calls set up. Every template is compiled from its source, which
extends what the router handed down, and no call changes what the router handed down.
-/
namespace RequestRouter

variable {H : Type}

/-- The route still has the scope it was created with, its templates are compiled, and so are the patterns in
the shared cache. -/
structure Compiled (scope : Scope) (r : Route H) (st : Setup) : Prop where
  scope : r.scope = scope
  host : ∀ t, r.host = some t → t.Made ∧ t.kind = .host
  path : ∀ t, r.path = some t → t.Made ∧ (t.kind = .path ∨ t.kind = .leading)
  queries : ∀ t ∈ r.queries, t.Made ∧ t.kind = .query
  cache : st.cache.Faithful

theorem Compiled.new {scope : Scope} {st : Setup} (hhost : scope.host = none) (hpath : scope.path = none)
    (hqueries : scope.queries = []) (id : RouteId) (hcache : st.cache.Faithful) :
    Compiled scope (.new scope id : Route H) st where
  scope := rfl
  host := fun _ ht => nomatch hhost.symm.trans ht
  path := fun _ ht => nomatch hpath.symm.trans ht
  queries := fun t ht => nomatch (hqueries ▸ ht : t ∈ [])
  cache := hcache

/-- What calls have made of a route `start`: each template is still the one it had, or it is compiled from a
text that extends the template of the scope; queries are only added. -/
structure Configured (start r : Route H) (st : Setup) : Prop where
  scope : r.scope = start.scope
  host : r.host = start.host ∨ ∃ t label, r.host = some t ∧ t.IsCompiled ∧ t.kind = .host ∧
    t.source = start.scope.host.elim label fun parent => label ++ "." ++ parent.source
  path : r.path = start.path ∨ ∃ t text, r.path = some t ∧ t.IsCompiled ∧
    (t.kind = .path ∨ t.kind = .leading) ∧ t.source = Call.fullPath start.scope text
  queries : ∃ own, r.queries = start.queries ++ own ∧ ∀ t ∈ own, t.IsCompiled ∧ t.kind = .query
  cache : st.cache.Faithful

namespace Configured

variable {start r r' : Route H} {st st' : Setup}

/-- What a call does beside the templates and the cache does not matter. -/
theorem of_eq (h : Configured start r st) (hscope : r'.scope = r.scope) (hhost : r'.host = r.host)
    (hpath : r'.path = r.path) (hqueries : r'.queries = r.queries) (hcache : st'.cache.Faithful) :
    Configured start r' st' where
  scope := hscope.trans h.scope
  host := hhost ▸ h.host
  path := hpath ▸ h.path
  queries := hqueries ▸ h.queries
  cache := hcache

theorem refl (start : Route H) (hcache : st.cache.Faithful) : Configured start start st :=
  ⟨rfl, .inl rfl, .inl rfl, ⟨[], by simp, nofun⟩, hcache⟩

theorem compiled {scope : Scope} (h : Configured start r st') (hstart : Compiled scope start st) :
    Compiled scope r st' where
  scope := h.scope.trans hstart.scope
  host := by
    intro t ht
    rcases h.host with heq | ⟨t', label, ht', hcompiled, hkind, -⟩
    · exact hstart.host t (heq ▸ ht)
    · obtain rfl := Option.some_inj.mp (ht.symm.trans ht')
      exact ⟨hcompiled.made, hkind⟩
  path := by
    intro t ht
    rcases h.path with heq | ⟨t', text, ht', hcompiled, hkind, -⟩
    · exact hstart.path t (heq ▸ ht)
    · obtain rfl := Option.some_inj.mp (ht.symm.trans ht')
      exact ⟨hcompiled.made, hkind⟩
  queries := by
    obtain ⟨own, hqueries, hown⟩ := h.queries
    intro t ht
    rw [hqueries] at ht
    rcases List.mem_append.mp ht with ht | ht
    · exact hstart.queries t ht
    · exact ⟨(hown t ht).1.made, (hown t ht).2⟩
  cache := h.cache

end Configured

namespace Call

section Trimmed

variable {s : List Char}

theorem trimSlashes_eq (h : s.getLast? ≠ some '/') : trimSlashes s = s := by
  rw [trimSlashes]
  rw [← List.head?_reverse] at h
  cases hr : s.reverse with
  | nil => simpa using hr.symm
  | cons c cs =>
    have hc : c ≠ '/' := by simpa [hr] using h
    simp only [List.dropWhile_cons, beq_iff_eq, hc, if_false]
    rw [← hr, List.reverse_reverse]

theorem trimSlashes_append (h : s.getLast? ≠ some '/') : trimSlashes (s ++ ['/']) = s := by
  have hmore : trimSlashes (s ++ ['/']) = trimSlashes s := by simp [trimSlashes]
  rw [hmore, trimSlashes_eq h]

theorem mem_trimSlashes {c : Char} (h : c ∈ trimSlashes s) : c ∈ s :=
  List.mem_reverse.mp ((List.dropWhile_sublist _).subset (List.mem_reverse.mp h))

end Trimmed

variable {start r : Route H} {st : Setup}

theorem compile_spec {st' : Setup} {source : String} {kind : TemplateKind} {t : Template}
    (hc : st.cache.Faithful) (h : compile r st source kind = (.ok t, st')) :
    t.IsCompiled ∧ t.kind = kind ∧ t.source = source ∧ st'.cache.Faithful := by
  unfold compile at h
  cases hcompile : Template.compile source kind ⟨r.scope.strictSlash, r.scope.useEncodedPath⟩ st.cache with
  | mk result cache =>
    simp only [hcompile, Prod.mk.injEq] at h
    obtain ⟨rfl, rfl⟩ := h
    obtain ⟨hsource, hkind, -, -, hfaithful⟩ := Template.compile_spec hc hcompile
    exact ⟨Template.isCompiled_of_compile hc hcompile, hkind, hsource, hfaithful⟩

theorem readHeaderPatterns_faithful {cache : PatternCache} (h : cache.Faithful)
    (pairs : List (String × String)) : (readHeaderPatterns cache pairs).2.Faithful := by
  induction pairs generalizing cache with
  | nil => exact h
  | cons p rest ih =>
    simp only [readHeaderPatterns]
    split
    · exact h
    · split
      · exact ih h
      · have hcompile := (PatternCache.compile_spec h p.2).2
        split
        · rename_i heq
          rwa [heq] at hcompile
        · rename_i heq
          rw [heq] at hcompile
          exact ih hcompile

theorem compile_faithful {source : String} {kind : TemplateKind} {x : Except RouteError Template} {st' : Setup}
    (hc : st.cache.Faithful) (h : compile r st source kind = (x, st')) : st'.cache.Faithful := by
  obtain rfl : (compile r st source kind).2 = st' := by rw [h]
  exact Template.compile_faithful hc _ _ _

theorem addQueries_faithful (hc : st.cache.Faithful) (pairs : List (String × String)) :
    (addQueries pairs r st).setup.cache.Faithful := by
  induction pairs generalizing r st with
  | nil => exact hc
  | cons p rest ih =>
    simp only [addQueries]
    split <;> rename_i heq
    · exact compile_faithful hc heq
    · exact ih (compile_faithful hc heq)

theorem apply_faithful (hc : st.cache.Faithful) (c : Call H) : (c.apply r st).2.cache.Faithful := by
  simp only [apply]
  split
  · exact hc
  cases c with
  | path t | leading t =>
    simp only [attempt, setPath]
    split
    · exact hc
    · split <;> rename_i heq <;> exact compile_faithful hc heq
  | host t =>
    simp only [attempt, setHost]
    split <;> rename_i heq <;> exact compile_faithful hc heq
  | methods names | headers names =>
    simp only [attempt]
    split <;> exact hc
  | headerPatterns pairs =>
    have hcache := readHeaderPatterns_faithful hc pairs
    simp only [attempt]
    split <;> rename_i heq <;> rwa [heq] at hcache
  | queries pairs => exact addQueries_faithful hc pairs
  | name n =>
    simp only [attempt, setName]
    split
    · exact hc
    · split <;> exact hc
  | schemes | matcher | transform | buildOnly | handler => exact hc

theorem setHost_configured (h : Configured start r st) (template : String)
    (hok : (setHost template r st).fault = none) :
    Configured start (setHost template r st).route (setHost template r st).setup := by
  simp only [setHost] at hok ⊢
  split at hok
  · cases hok
  · rename_i t st' heq
    obtain ⟨hcompiled, hkind, hsource, hcache⟩ := compile_spec h.cache heq
    rw [h.scope] at hsource
    exact ⟨h.scope, .inr ⟨t, template, rfl, hcompiled, hkind, hsource⟩, h.path, h.queries, hcache⟩

theorem setPath_configured (h : Configured start r st) (template : String) {kind : TemplateKind}
    (hk : kind = .path ∨ kind = .leading) (hok : (setPath template kind r st).fault = none) :
    Configured start (setPath template kind r st).route (setPath template kind r st).setup := by
  simp only [setPath] at hok ⊢
  split at hok
  · cases hok
  · rename_i hslash
    rw [if_neg hslash]
    split at hok
    · cases hok
    · rename_i t st' heq
      obtain ⟨hcompiled, rfl, hsource, hcache⟩ := compile_spec h.cache heq
      rw [h.scope] at hsource
      exact ⟨h.scope, h.host, .inr ⟨t, template, rfl, hcompiled, hk, hsource⟩, h.queries, hcache⟩

theorem addQueries_configured (h : Configured start r st) (pairs : List (String × String))
    (hok : (addQueries pairs r st).fault = none) :
    Configured start (addQueries pairs r st).route (addQueries pairs r st).setup := by
  induction pairs generalizing r st with
  | nil => exact h
  | cons p rest ih =>
    simp only [addQueries] at hok ⊢
    split at hok
    · cases hok
    · rename_i t st' heq
      obtain ⟨hcompiled, hkind, -, hcache⟩ := compile_spec h.cache heq
      obtain ⟨own, hqueries, hown⟩ := h.queries
      refine ih ⟨h.scope, h.host, h.path, ⟨own ++ [t], by simp [hqueries], ?_⟩, hcache⟩ hok
      intro q hq
      rcases List.mem_append.mp hq with hq | hq
      · exact hown q hq
      · rw [List.mem_singleton.mp hq]
        exact ⟨hcompiled, hkind⟩

theorem setName_configured (h : Configured start r st) (name : String) :
    Configured start (setName name r st).route (setName name r st).setup := by
  simp only [setName]
  split
  · exact h
  · split
    · exact h
    · exact h.of_eq rfl rfl rfl rfl h.cache

theorem attempt_configured (h : Configured start r st) (c : Call H) (hok : (c.attempt r st).fault = none) :
    Configured start (c.attempt r st).route (c.attempt r st).setup := by
  cases c with
  | path t => exact setPath_configured h t (.inl rfl) hok
  | leading t => exact setPath_configured h t (.inr rfl) hok
  | host t => exact setHost_configured h t hok
  | methods names =>
    simp only [attempt]
    split
    · exact h
    · exact h.of_eq rfl rfl rfl rfl h.cache
  | headers pairs =>
    simp only [attempt]
    split
    · exact h
    · exact h.of_eq rfl rfl rfl rfl h.cache
  | headerPatterns pairs =>
    have hcache := readHeaderPatterns_faithful h.cache pairs
    simp only [attempt]
    split
    all_goals
      rename_i heq
      rw [heq] at hcache
      exact h.of_eq rfl rfl rfl rfl hcache
  | queries pairs => exact addQueries_configured h pairs hok
  | schemes names =>
    simp only [attempt, addSchemes, addMatcher]
    split <;> exact h.of_eq rfl rfl rfl rfl h.cache
  | matcher judge => exact h.of_eq rfl rfl rfl rfl h.cache
  | transform f => exact h.of_eq rfl rfl rfl rfl h.cache
  | buildOnly => exact h.of_eq rfl rfl rfl rfl h.cache
  | name n => exact setName_configured h n
  | handler f => exact h.of_eq rfl rfl rfl rfl h.cache

theorem apply_configured (h : Configured start r st) (c : Call H) (hok : (c.apply r st).1.error = none) :
    Configured start (c.apply r st).1 (c.apply r st).2 := by
  simp only [apply] at hok ⊢
  split
  · exact h
  · rename_i hr
    rw [if_neg hr] at hok
    have hattempt := attempt_configured h c hok
    exact hattempt.of_eq rfl rfl rfl rfl hattempt.cache

theorem applyAll_of_error (calls : List (Call H)) (h : r.error.isSome = true) :
    applyAll calls r st = (r, st) := by
  induction calls with
  | nil => rfl
  | cons c calls ih =>
    rw [applyAll_cons, apply, if_pos h]
    exact ih

theorem applyAll_configured (h : Configured start r st) (calls : List (Call H))
    (hok : (applyAll calls r st).1.error = none) :
    Configured start (applyAll calls r st).1 (applyAll calls r st).2 := by
  induction calls generalizing r st with
  | nil => exact h
  | cons c calls ih =>
    rw [applyAll_cons] at hok ⊢
    cases hc : (c.apply r st).1.error with
    | none => exact ih (apply_configured h c hc) hok
    | some e =>
      rw [applyAll_of_error calls (by simp [hc])] at hok
      rw [hc] at hok
      cases hok

theorem applyAll_compiled {scope : Scope} (h : Compiled scope r st) (calls : List (Call H))
    (hok : (applyAll calls r st).1.error = none) :
    Compiled scope (applyAll calls r st).1 (applyAll calls r st).2 :=
  (applyAll_configured (.refl r h.cache) calls hok).compiled h

end Call

end RequestRouter
