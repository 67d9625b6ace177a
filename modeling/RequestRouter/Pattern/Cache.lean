import RequestRouter.Regex.Basic
/-!
A cache of compiled patterns. An enabled cache compiles each pattern text once; a disabled one keeps
nothing. Neither changes what a text compiles to.
-/
namespace RequestRouter

/-- The patterns compiled so far, by their text. -/
structure PatternCache where
  enabled : Bool
  entries : List (String × Regex)

namespace PatternCache

def new : PatternCache := ⟨true, []⟩

def disabled : PatternCache := ⟨false, []⟩

def get? (cache : PatternCache) (pattern : String) : Option Regex := cache.entries.lookup pattern

/-- The compiled pattern, from the cache if it is there. A text that is no pattern is never stored. -/
def compileWith (build : Regex.Builder) (cache : PatternCache) (pattern : String) : Option Regex × PatternCache :=
  if cache.enabled then
    match cache.get? pattern with
    | some r => (some r, cache)
    | none =>
      match build pattern with
      | some r => (some r, { cache with entries := (pattern, r) :: cache.entries })
      | none => (none, cache)
  else (build pattern, cache)

def compile (cache : PatternCache) (pattern : String) : Option Regex × PatternCache :=
  cache.compileWith Regex.compile? pattern

def size (cache : PatternCache) : Nat := cache.entries.length

def isEmpty (cache : PatternCache) : Bool := cache.entries.isEmpty

def clear (cache : PatternCache) : PatternCache := { cache with entries := [] }

/-- Every stored pattern is what its text compiles to, and a disabled cache is empty. -/
def FaithfulTo (build : Regex.Builder) (cache : PatternCache) : Prop :=
  (∀ p r, (p, r) ∈ cache.entries → build p = some r) ∧ (cache.enabled = false → cache.entries = [])

def Faithful (cache : PatternCache) : Prop := cache.FaithfulTo Regex.compile?

theorem faithful_new : new.Faithful := by simp [Faithful, FaithfulTo, new]

end PatternCache

end RequestRouter
