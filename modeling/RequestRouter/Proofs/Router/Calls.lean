import Mathlib.Data.List.Induction
import RequestRouter.Proofs.Router.Names
/-!
What is noted of the calls on each route of a tree. Between two calls on a route other routes may be created and
configured, and the router below it may be worked on; all that counts for the route are its own calls in order, as
long as it has no error.
-/
namespace RequestRouter

variable {H α : Type}

namespace Session

/-- What is noted of a move for the route with an identity, if it is a call on that route. On a route with an error
no call is carried out. -/
def note (f : Call H → Option α) (s : Session H) (id : RouteId) : Move H → Option α
  | .call c => if s.opened.any fun e => e.route.id = id ∧ e.route.error.isNone then f c else none
  | _ => none

/-- What is noted of several moves for the route with an identity, in order. -/
def notes (f : Call H → Option α) (id : RouteId) : Session H → List (Move H) → List α
  | _, [] => []
  | s, m :: ms => (s.note f id m).toList ++ notes f id (s.move m) ms

theorem notes_append (f : Call H → Option α) (id : RouteId) (s : Session H) (ms ms' : List (Move H)) :
    s.notes f id (ms ++ ms') = s.notes f id ms ++ (s.moves ms).notes f id ms' := by
  induction ms generalizing s with
  | nil => rfl
  | cons m ms ih => rw [List.cons_append, notes, notes, ih, List.append_assoc, moves_cons]

theorem run_map_move (s : Session H) (ms : List (Move H)) : s.run (ms.map .move) = s.moves ms := List.foldl_map

theorem exists_moves (s : Session H) (history : List (Action H)) : ∃ ms, s.run history = s.moves ms := by
  induction history generalizing s with
  | nil => exact ⟨[], rfl⟩
  | cons a history ih =>
    obtain ⟨ms, hms⟩ : ∃ ms, s.moves ms = s.perform a := by
      cases a with
      | move m => exact ⟨[m], rfl⟩
      | install table resolve =>
        obtain ⟨ms, -, hms⟩ := s.reaches_install table resolve
        exact ⟨ms, hms⟩
    obtain ⟨rest, hrest⟩ := ih (s.perform a)
    exact ⟨ms ++ rest, by rw [run_cons, hrest, moves_append, hms]⟩

/-- The routes of the tree fit what a log has for them; for routes that are not there yet it has nothing. -/
structure Notes (P : Route H → List α → Prop) (s : Session H) (log : RouteId → List α) : Prop where
  routes : ∀ r ∈ s.root.routes.flatten, P r (log r.id)
  fresh : ∀ id, s.setup.nextRoute ≤ id → log id = []

namespace Notes

variable {P : Route H → List α → Prop} {f : Call H → Option α} {s s' : Session H} {log : RouteId → List α}

theorem of_added (h : s.Notes P log) {added : List (Route H)}
    (hroutes : s'.root.routes.flatten = s.root.routes.flatten ++ added)
    (hadded : ∀ r ∈ added, P r [] ∧ s.setup.nextRoute ≤ r.id)
    (hnext : s.setup.nextRoute ≤ s'.setup.nextRoute) : s'.Notes P log where
  routes r hr := by
    rcases List.mem_append.mp (hroutes ▸ hr) with hr | hr
    · exact h.routes r hr
    · obtain ⟨hnone, hid⟩ := hadded r hr
      rwa [h.fresh r.id hid]
  fresh id hid := h.fresh id (Nat.le_trans hnext hid)

theorem call (hcall : ∀ r st c l, r.error = none → P r l → P (c.apply r st).1 (l ++ (f c).toList))
    (h : s.Notes P log) (hids : Registered s.root.routes.flatten s.setup) (c : Call H) :
    (s.move (.call c)).Notes P fun id => log id ++ (s.note f id (.call c)).toList := by
  obtain ⟨outer, r, opened, st, w⟩ := s
  cases opened with
  | none =>
    have hnone (id : RouteId) : note f ⟨outer, r, none, st, w⟩ id (.call c) = none := rfl
    simp only [hnone, Option.toList_none, List.append_nil]
    exact h
  | some e =>
    let called : Session H := ⟨outer, r, some { e with route := (c.apply e.route st).1 }, (c.apply e.route st).2, w⟩
    have hnamed := c.apply_named e.route st
    have hbefore := flatten_opened (s := ⟨outer, r, some e, st, w⟩) rfl
    have hafter := flatten_opened (s := called) rfl
    have hnote (id : RouteId) : note f ⟨outer, r, some e, st, w⟩ id (.call c) =
        if e.route.id = id ∧ e.route.error.isNone then f c else none := by
      simp [note]
    have hother {id : RouteId} (hne : e.route.id ≠ id) :
        (if e.route.id = id ∧ e.route.error.isNone then f c else none) = none :=
      if_neg fun hid => hne hid.1
    have hmem {x : Route H} (hx : x = e.route ∨ x ∈ (around outer ++ r.routes.flatten) ++
        e.sub.elim [] (·.routes.flatten)) : x ∈ (Session.mk outer r (some e) st w).root.routes.flatten :=
      hbefore ▸ List.perm_middle.mem_iff.mpr (List.mem_cons.mpr hx)
    -- Identities are given once, so what is noted for the open route is noted for no other route of the tree.
    have hnodup := hids.ids
    rw [hbefore, List.map_append, List.map_cons, List.nodup_middle, List.nodup_cons, ← List.map_append] at hnodup
    simp only [hnote]
    refine ⟨fun x hx => ?_, fun id hid => ?_⟩
    · have hopened := h.routes e.route (hmem (.inl rfl))
      have hx' : x ∈ called.root.routes.flatten := hx
      rw [hafter] at hx'
      rcases List.mem_cons.mp (List.perm_middle.mem_iff.mp hx') with rfl | hrest
      · cases herror : e.route.error with
        | none => simpa [hnamed.id] using hcall _ st c _ herror hopened
        | some fault => simpa [Call.apply, herror] using hopened
      · rw [hother fun hid => hnodup.1 (hid ▸ List.mem_map_of_mem hrest), Option.toList_none, List.append_nil]
        exact h.routes x (hmem (.inr hrest))
    · have hlt := hids.fresh e.route (hmem (.inl rfl))
      have hnext : st.nextRoute ≤ id := hnamed.nextRoute ▸ hid
      rw [hother (Nat.ne_of_lt (Nat.lt_of_lt_of_le hlt hnext)), h.fresh id hnext]
      rfl

theorem move (hnew : ∀ scope id, P (.new scope id) [])
    (hcall : ∀ r st c l, r.error = none → P r l → P (c.apply r st).1 (l ++ (f c).toList))
    (h : s.Notes P log) (hids : Registered s.root.routes.flatten s.setup) (m : Move H) :
    (s.move m).Notes P fun id => log id ++ (s.note f id m).toList := by
  by_cases hm : ∃ c, m = .call c
  · obtain ⟨c, rfl⟩ := hm
    exact h.call hcall hids c
  · have hno : ∀ c, m ≠ .call c := fun c hc => hm ⟨c, hc⟩
    have hnone (id : RouteId) : s.note f id m = none := by
      cases m with
      | call c => exact absurd rfl (hno c)
      | _ => rfl
    simp only [hnone, Option.toList_none, List.append_nil]
    rcases (s.move_routes hno).2 with ⟨hroutes, hnext⟩ | ⟨hroutes, hnext⟩
    · exact h.of_added (hroutes.trans (List.append_nil _).symm) (List.forall_mem_nil _) hnext
    · exact h.of_added hroutes (List.forall_mem_singleton.mpr ⟨hnew _ _, le_rfl⟩) (hnext ▸ Nat.le_succ _)

end Notes

/-- What holds of a new route, and is kept by each call as it is noted, holds of every route of a tree and of what is
noted for it. -/
theorem moves_notes {P : Route H → List α → Prop} {f : Call H → Option α} (hnew : ∀ scope id, P (.new scope id) [])
    (hcall : ∀ r st c l, r.error = none → P r l → P (c.apply r st).1 (l ++ (f c).toList)) (cache : PatternCache)
    (ms : List (Move H)) : ((new cache).moves ms).Notes P fun id => (new cache).notes f id ms := by
  induction ms using List.reverseRecOn with
  | nil => exact ⟨List.forall_mem_nil _, fun _ _ => rfl⟩
  | append_singleton ms m ih =>
    have hids := run_registered cache (ms.map .move)
    rw [run_map_move] at hids
    simp only [moves_append, notes_append, notes, List.append_nil]
    exact ih.move hnew hcall hids m

end Session

end RequestRouter
