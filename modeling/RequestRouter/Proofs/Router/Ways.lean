import Mathlib.Data.List.Nodup
import Mathlib.Data.List.Pairwise
import RequestRouter.Proofs.Dispatch.Fallbacks
/-!
Ways through a tree of routers. A way leads from a router over mounts to a route. If the routes of a tree have
different identities, one way leads to each of them, and if its routers have different keys, each of them is
there once.
-/
namespace RequestRouter

variable {H : Type}

theorem eq_of_mem_flatMap {α β : Type} {f : α → List β} {l : List α} (h : (l.flatMap f).Nodup) {x y : α}
    (hx : x ∈ l) (hy : y ∈ l) {b : β} (hbx : b ∈ f x) (hby : b ∈ f y) : x = y := by
  have hsymm : Std.Symm (Function.onFun List.Disjoint f) := ⟨fun _ _ hxy => List.disjoint_symm hxy⟩
  by_contra hne
  exact (List.nodup_flatMap.mp h).2.forall hx hy hne hbx hby

namespace Entry

/-- The route itself and the routes below it. -/
def flatten (e : Entry H) : List (Route H) := e.route :: e.sub.elim [] (·.routes.flatten)

end Entry

namespace Tree

theorem flatten_eq (t : Tree H) : t.flatten = t.entries.flatMap Entry.flatten := by
  induction t with
  | nil => rfl
  | leaf r rest ih => simp [flatten, entries, Entry.flatten, ih]
  | mount r s inner rest _ ih => simp [flatten, entries, Entry.flatten, ih]

def keys : Tree H → List Nat
  | nil => []
  | leaf _ rest => rest.keys
  | mount _ s inner rest => s.key :: (inner.keys ++ rest.keys)

end Tree

def Router.keys (r : Router H) : List Nat := r.settings.key :: r.routes.keys

namespace Tree

theorem keys_eq (t : Tree H) : t.keys = t.entries.flatMap fun e => e.sub.elim [] Router.keys := by
  induction t with
  | nil => rfl
  | leaf r rest ih => simp [keys, entries, ih]
  | mount r s inner rest _ ih => simp [keys, entries, Router.keys, ih]

theorem keys_push (t : Tree H) (e : Entry H) : (t.push e).keys = t.keys ++ e.sub.elim [] Router.keys := by
  simp [keys_eq, entries_push]

end Tree

namespace Router

/-- A way from a router to one of its routes or of the routes below: the mounts on the way, the outermost
first, each with the router below it. -/
inductive Leads : Router H → List (Route H × Router H) → Entry H → Prop where
  | here {r : Router H} {e : Entry H} (h : e ∈ r.routes.entries) : Leads r [] e
  | through {r sub : Router H} {mount : Route H} {way : List (Route H × Router H)} {e : Entry H}
    (h : ⟨mount, some sub⟩ ∈ r.routes.entries) (hway : Leads sub way e) : Leads r ((mount, sub) :: way) e

/-- The router itself or a router below it. -/
inductive Has : Router H → Router H → Prop where
  | self (r : Router H) : Has r r
  | through {r sub below : Router H} {mount : Route H} (h : ⟨mount, some sub⟩ ∈ r.routes.entries)
    (hsub : Has sub below) : Has r below

variable {r r' sub below : Router H} {way way' : List (Route H × Router H)} {e e' : Entry H}

theorem Leads.mono (h : r.Leads way e) (hsub : ∀ x ∈ r.routes.entries, x ∈ r'.routes.entries) :
    r'.Leads way e := by
  cases h with
  | here h => exact .here (hsub _ h)
  | through h hway => exact .through (hsub _ h) hway

theorem Has.trans (h : r.Has sub) (hsub : sub.Has below) : r.Has below := by
  induction h with
  | self => exact hsub
  | through h _ ih => exact .through h (ih hsub)

theorem Has.leads (h : r.Has sub) (hway : sub.Leads way e) : ∃ front, r.Leads (front ++ way) e := by
  induction h with
  | self => exact ⟨[], hway⟩
  | @through r mid _ mount h _ ih =>
    obtain ⟨front, hfront⟩ := ih hway
    exact ⟨(mount, mid) :: front, .through h hfront⟩

theorem mem_flatten_of_entries {route : Route H} (he : e ∈ r.routes.entries) (h : route ∈ e.flatten) :
    route ∈ r.routes.flatten := by
  rw [Tree.flatten_eq]
  exact List.mem_flatMap.mpr ⟨e, he, h⟩

theorem Leads.mem_flatten (h : r.Leads way e) : e.route ∈ r.routes.flatten := by
  induction h with
  | here h => exact mem_flatten_of_entries h List.mem_cons_self
  | through h _ ih => exact mem_flatten_of_entries h (List.mem_cons_of_mem _ ih)

theorem exists_leads {route : Route H} (h : route ∈ r.routes.flatten) :
    ∃ way sub, r.Leads way ⟨route, sub⟩ := by
  obtain ⟨settings, t⟩ := r
  dsimp only at h
  induction t generalizing settings with
  | nil => cases h
  | leaf r rest ih =>
    rcases List.mem_cons.mp h with rfl | h
    · exact ⟨[], none, .here List.mem_cons_self⟩
    · obtain ⟨way, sub, hway⟩ := ih settings h
      exact ⟨way, sub, hway.mono fun x hx => List.mem_cons_of_mem _ hx⟩
  | mount r s inner rest ihInner ihRest =>
    rcases List.mem_cons.mp h with rfl | h
    · exact ⟨[], some ⟨s, inner⟩, .here List.mem_cons_self⟩
    · rcases List.mem_append.mp h with h | h
      · obtain ⟨way, sub, hway⟩ := ihInner s h
        exact ⟨(r, ⟨s, inner⟩) :: way, sub, .through List.mem_cons_self hway⟩
      · obtain ⟨way, sub, hway⟩ := ihRest settings h
        exact ⟨way, sub, hway.mono fun x hx => List.mem_cons_of_mem _ hx⟩

theorem Leads.eq_of_id (h : (r.routes.flatten.map (·.id)).Nodup) (hway : r.Leads way e)
    (hway' : r.Leads way' e') (hid : e.route.id = e'.route.id) : way = way' ∧ e = e' := by
  induction hway generalizing way' e' with
  | @here r e he =>
    rw [Tree.flatten_eq, List.map_flatMap] at h
    cases hway' with
    | here he' =>
      have hmem : e.route.id ∈ e'.flatten.map (·.id) := by
        rw [hid]
        exact List.mem_cons_self
      exact ⟨rfl, eq_of_mem_flatMap h he he' List.mem_cons_self hmem⟩
    | @through _ sub mount way' _ hmount hway' =>
      have hmem : e.route.id ∈ ((⟨mount, some sub⟩ : Entry H).flatten).map (·.id) :=
        hid ▸ List.mem_map_of_mem (List.mem_cons_of_mem _ hway'.mem_flatten)
      obtain rfl := eq_of_mem_flatMap h he hmount List.mem_cons_self hmem
      have hnodup := (List.nodup_flatMap.mp h).1 _ he
      rw [Entry.flatten, List.map_cons, List.nodup_cons] at hnodup
      exact absurd (hid ▸ List.mem_map_of_mem hway'.mem_flatten) hnodup.1
  | @through r sub mount way e hmount hway ih =>
    rw [Tree.flatten_eq, List.map_flatMap] at h
    have hmem : e.route.id ∈ ((⟨mount, some sub⟩ : Entry H).flatten).map (·.id) :=
      List.mem_map_of_mem (List.mem_cons_of_mem _ hway.mem_flatten)
    have hnodup := (List.nodup_flatMap.mp h).1 _ hmount
    rw [Entry.flatten, List.map_cons, List.nodup_cons] at hnodup
    cases hway' with
    | here he' =>
      obtain rfl := eq_of_mem_flatMap h hmount he' hmem (hid ▸ List.mem_cons_self)
      exact absurd (hid ▸ List.mem_map_of_mem hway.mem_flatten) hnodup.1
    | @through _ sub' mount' way' _ hmount' hway' =>
      have hmem' : e.route.id ∈ ((⟨mount', some sub'⟩ : Entry H).flatten).map (·.id) :=
        hid ▸ List.mem_map_of_mem (List.mem_cons_of_mem _ hway'.mem_flatten)
      have hsame := eq_of_mem_flatMap h hmount hmount' hmem hmem'
      simp only [Entry.mk.injEq, Option.some.injEq] at hsame
      obtain ⟨rfl, rfl⟩ := hsame
      obtain ⟨rfl, rfl⟩ := ih hnodup.2 hway' hid
      exact ⟨rfl, rfl⟩

theorem Has.mem_keys (h : r.Has below) : below.settings.key ∈ r.keys := by
  induction h with
  | self => exact List.mem_cons_self
  | @through r sub below mount h _ ih =>
    rw [keys, Tree.keys_eq]
    exact List.mem_cons_of_mem _ (List.mem_flatMap.mpr ⟨_, h, ih⟩)

theorem Has.eq_of_key (h : r.keys.Nodup) (hbelow : r.Has below) (hsub : r.Has sub)
    (hkey : below.settings.key = sub.settings.key) : below = sub := by
  induction hbelow with
  | self r =>
    cases hsub with
    | self => rfl
    | @through _ mid _ mount hmid hsub =>
      rw [keys, Tree.keys_eq, List.nodup_cons] at h
      exact absurd (List.mem_flatMap.mpr ⟨_, hmid, hkey ▸ hsub.mem_keys⟩) h.1
  | @through r mid below mount hmid hbelow ih =>
    rw [keys, Tree.keys_eq, List.nodup_cons] at h
    cases hsub with
    | self => exact absurd (List.mem_flatMap.mpr ⟨_, hmid, hkey ▸ hbelow.mem_keys⟩) h.1
    | @through _ mid' _ mount' hmid' hsub =>
      have hsame := eq_of_mem_flatMap h.2 hmid hmid' hbelow.mem_keys (hkey ▸ hsub.mem_keys)
      simp only [Entry.mk.injEq, Option.some.injEq] at hsame
      obtain ⟨rfl, rfl⟩ := hsame
      exact ih ((List.nodup_flatMap.mp h.2).1 _ hmid) hsub hkey

theorem Has.nodup_keys (h : r.Has below) (hkeys : r.keys.Nodup) : below.keys.Nodup := by
  induction h with
  | self => exact hkeys
  | through h _ ih =>
    rw [keys, Tree.keys_eq, List.nodup_cons] at hkeys
    exact ih ((List.nodup_flatMap.mp hkeys.2).1 _ h)

theorem Has.nodup_ids (h : r.Has below) (hids : (r.routes.flatten.map (·.id)).Nodup) :
    (below.routes.flatten.map (·.id)).Nodup := by
  induction h with
  | self => exact hids
  | through h _ ih =>
    rw [Tree.flatten_eq, List.map_flatMap] at hids
    have hentry := (List.nodup_flatMap.mp hids).1 _ h
    rw [Entry.flatten, List.map_cons, List.nodup_cons] at hentry
    exact ih hentry.2

end Router

end RequestRouter
