import RequestRouter.Proofs.Pattern.Compiled
/-!
Templates compiled with an enabled cache and with a disabled one. What compiling comes to is the same, be it a
template or an error. The enabled cache keeps only what the stored texts compile to, and the disabled one stays empty.
-/
namespace RequestRouter

open RequestRouter.Text

namespace PatternCache

/-- The cache is enabled, and every stored pattern is what its text compiles to. -/
structure Sound (cache : PatternCache) : Prop where
  enabled : cache.enabled = true
  entries : ∀ p r, (p, r) ∈ cache.entries → Regex.compile? p = some r

/-- Work came to the same with a sound cache and with a disabled one, and left the caches so. -/
def Alike {α : Type} (x y : α × PatternCache) : Prop :=
  ∃ a cache, Sound cache ∧ x = (a, cache) ∧ y = (a, disabled)

theorem sound_new : new.Sound := ⟨rfl, nofun⟩

variable {α β : Type} {cache : PatternCache} {x y : α × PatternCache}

theorem Sound.faithful (h : cache.Sound) : cache.Faithful :=
  ⟨h.entries, fun hdisabled => nomatch h.enabled.symm.trans hdisabled⟩

theorem Sound.clear (h : cache.Sound) : cache.clear.Sound := ⟨h.enabled, nofun⟩

theorem Alike.intro (h : cache.Sound) (a : α) : Alike (a, cache) (a, disabled) := ⟨a, cache, h, rfl, rfl⟩

theorem Alike.map (h : Alike x y) (f : α → β) : Alike (f x.1, x.2) (f y.1, y.2) := by
  obtain ⟨a, cache, hsound, rfl, rfl⟩ := h
  exact .intro hsound (f a)

theorem compile_enabled (cache : PatternCache) (p : String) : (cache.compile p).2.enabled = cache.enabled := by
  unfold compile compileWith
  split
  · split
    · rfl
    · split <;> rfl
  · rfl

theorem compile_alike (h : cache.Sound) (p : String) : Alike (cache.compile p) (disabled.compile p) := by
  obtain ⟨hvalue, hfaithful⟩ := compile_spec h.faithful p
  exact ⟨_, _, ⟨(cache.compile_enabled p).trans h.enabled, hfaithful.1⟩, Prod.ext hvalue rfl, rfl⟩

theorem foldl_compile (h : cache.Sound) (ps : List String) :
    (ps.foldl (fun cache p => (cache.compile p).2) cache).Sound ∧
      ps.foldl (fun cache p => (cache.compile p).2) disabled = disabled := by
  induction ps generalizing cache with
  | nil => exact ⟨h, rfl⟩
  | cons p ps ih =>
    obtain ⟨r, cache', h', hx, hy⟩ := compile_alike h p
    rw [List.foldl_cons, List.foldl_cons, hx, hy]
    exact ih h'

end PatternCache

namespace Template

open PatternCache

variable {cache : PatternCache}

theorem patternValidator_alike (h : cache.Sound) (p : String) :
    Alike (patternValidator Regex.compile? cache p) (patternValidator Regex.compile? disabled p) := by
  obtain ⟨r, cache', h', hx, hy⟩ := PatternCache.compile_alike h (anchored p)
  rw [PatternCache.compile] at hx hy
  rw [patternValidator, patternValidator, hx, hy]
  cases r <;> exact .intro h' _

theorem constraintValidator_alike (h : cache.Sound) (kind : TemplateKind) (span : String) (c : Option String) :
    Alike (constraintValidator Regex.compile? kind cache span c)
      (constraintValidator Regex.compile? kind disabled span c) := by
  unfold constraintValidator
  split
  · exact (patternValidator_alike h _).map _
  · exact .intro h _
  · split
    · exact .intro h _
    · exact (patternValidator_alike h _).map _

theorem compileSpan_alike (h : cache.Sound) (source : String) (kind : TemplateKind) (used : List String)
    (span : List Char) :
    Alike (compileSpan Regex.compile? source kind used cache span)
      (compileSpan Regex.compile? source kind used disabled span) := by
  unfold compileSpan
  dsimp only
  split
  · exact .intro h _
  · split
    · exact .intro h _
    · exact (constraintValidator_alike h kind _ _).map _

theorem compileSpans_alike (h : cache.Sound) (source : String) (kind : TemplateKind) (used : List String)
    (spans : List (List Char × List Char)) :
    Alike (compileSpans Regex.compile? source kind used cache spans)
      (compileSpans Regex.compile? source kind used disabled spans) := by
  induction spans generalizing used cache with
  | nil => exact .intro h _
  | cons span spans ih =>
    obtain ⟨r, cache', h', hx, hy⟩ := compileSpan_alike h source kind used span.2
    rw [compileSpans, compileSpans, hx, hy]
    cases r with
    | error e => exact .intro h' _
    | ok var => exact (ih h' _).map _

theorem compileWhole_alike (h : cache.Sound) (source : String) (kind : TemplateKind) (body : List Char) :
    Alike (compileWhole Regex.compile? source kind body cache)
      (compileWhole Regex.compile? source kind body disabled) := by
  obtain ⟨r, cache', h', hx, hy⟩ := PatternCache.compile_alike h (String.ofList ('^' :: body))
  rw [PatternCache.compile] at hx hy
  rw [compileWhole, compileWhole, hx, hy]
  cases r with
  | none => exact .intro h' _
  | some regex =>
    dsimp only
    split
    · obtain ⟨r, cache'', h'', hx, hy⟩ := PatternCache.compile_alike h' (String.ofList ("(?:^|\\.)".toList ++ body))
      rw [PatternCache.compile] at hx hy
      rw [hx, hy]
      cases r <;> exact .intro h'' _
    · exact .intro h' _

theorem compile_alike (h : cache.Sound) (source : String) (kind : TemplateKind) (options : TemplateOptions) :
    Alike (compile source kind options cache) (compile source kind options disabled) := by
  unfold compile compileWith
  dsimp only
  split
  · exact .intro h _
  · rename_i cut _
    obtain ⟨r, cache', h', hx, hy⟩ := compileSpans_alike h source kind [] cut.spans
    rw [hx, hy]
    cases r with
    | error e => exact .intro h' _
    | ok slots =>
      dsimp only
      generalize regexBody kind _ _ slots _ = body
      obtain ⟨r, cache'', h'', hx, hy⟩ := compileWhole_alike h' source kind body
      rw [hx, hy]
      cases r <;> exact .intro h'' _

end Template

end RequestRouter
