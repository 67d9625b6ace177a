import RequestRouter.Proofs.Dispatch.Site
/-!
Walks of a tree. The places of a tree in the order of their indices are its pre-order. A walk goes through them in that
order, past those below a place at which the visitor skips, and to the end unless the visitor ends it before.
-/
namespace RequestRouter

/-- A place in a tree of routers: in each router, from the outermost one on, the index of the route that leads there. -/
abbrev Place := List Nat

def Above (q p : Place) : Prop := q <+: p ∧ q ≠ p

instance (q p : Place) : Decidable (Above q p) := inferInstanceAs (Decidable (q <+: p ∧ q ≠ p))

section Places

variable {q p : Place} {i j : Nat}

theorem above_iff : Above q p ↔ ∃ i rest, p = q ++ i :: rest := by
  constructor
  · rintro ⟨⟨_ | ⟨i, rest⟩, rfl⟩, hne⟩
    · exact absurd (List.append_nil q).symm hne
    · exact ⟨i, rest, rfl⟩
  · rintro ⟨i, rest, rfl⟩
    exact ⟨⟨_, rfl⟩, by simp⟩

theorem Above.lt (h : Above q p) : q < p := by
  obtain ⟨i, rest, rfl⟩ := above_iff.mp h
  have hlt : q ++ [] < q ++ i :: rest := List.append_left_lt (List.nil_lt_cons i rest)
  rwa [List.append_nil] at hlt

end Places

variable {H σ ε : Type}

namespace Tree

/-- What a visitor sees at a place. -/
def visitAt? (owner : Router H) (above : List (Route H)) (t : Tree H) : Place → Option (Visit H)
  | [] => none
  | i :: p => t.entries[i]?.bind fun e =>
      if p = [] then some ⟨e.route, owner, above⟩
      else e.sub.bind fun sub => visitAt? sub (above ++ [e.route]) sub.routes p

/-- The places of routes, from the index `i` on in the router at `q`, each with what a visitor sees there. -/
def spots (owner : Router H) (above : List (Route H)) : Tree H → Place → Nat → List (Place × Visit H)
  | nil, _, _ => []
  | leaf r rest, q, i => (q ++ [i], ⟨r, owner, above⟩) :: spots owner above rest q (i + 1)
  | mount r s inner rest, q, i => (q ++ [i], ⟨r, owner, above⟩) ::
      (spots ⟨s, inner⟩ (above ++ [r]) inner (q ++ [i]) 0 ++ spots owner above rest q (i + 1))

variable {t inner rest : Tree H} {owner : Router H} {above : List (Route H)} {r : Route H} {s : Settings H}
  {q p : Place} {i : Nat} {v : Visit H}

theorem visitAt?_leaf_zero : (leaf r rest).visitAt? owner above (0 :: p) = some v ↔
    p = [] ∧ v = ⟨r, owner, above⟩ := by
  by_cases hp : p = [] <;> simp [visitAt?, entries, hp, eq_comm]

@[simp] theorem visitAt?_leaf_succ :
    (leaf r rest).visitAt? owner above ((i + 1) :: p) = rest.visitAt? owner above (i :: p) := rfl

theorem visitAt?_mount_zero : (mount r s inner rest).visitAt? owner above (0 :: p) = some v ↔
    p = [] ∧ v = ⟨r, owner, above⟩ ∨ inner.visitAt? ⟨s, inner⟩ (above ++ [r]) p = some v := by
  by_cases hp : p = [] <;> simp [visitAt?, entries, hp, eq_comm]

@[simp] theorem visitAt?_mount_succ :
    (mount r s inner rest).visitAt? owner above ((i + 1) :: p) = rest.visitAt? owner above (i :: p) := rfl

theorem add_succ_cons (q p : Place) (i j : Nat) : q ++ (i + (j + 1)) :: p = q ++ (i + 1 + j) :: p := by
  rw [Nat.add_comm j 1, Nat.add_assoc]

theorem mem_spots : (p, v) ∈ t.spots owner above q i ↔
    ∃ j rest, p = q ++ (i + j) :: rest ∧ t.visitAt? owner above (j :: rest) = some v := by
  induction t generalizing owner above q i with
  | nil => simp [spots, visitAt?, entries]
  | leaf r rest ih =>
    rw [← Nat.or_exists_add_one, spots, List.mem_cons, ih]
    simp only [visitAt?_leaf_zero, visitAt?_leaf_succ, add_succ_cons, Nat.add_zero, Prod.mk.injEq]
    refine or_congr_left ⟨?_, ?_⟩
    · rintro ⟨rfl, rfl⟩
      exact ⟨[], rfl, rfl, rfl⟩
    · rintro ⟨_, rfl, rfl, rfl⟩
      exact ⟨rfl, rfl⟩
  | mount r s inner rest ihInner ihRest =>
    rw [← Nat.or_exists_add_one, spots, List.mem_cons, List.mem_append, ihInner, ihRest, ← or_assoc]
    simp only [visitAt?_mount_zero, visitAt?_mount_succ, add_succ_cons, Nat.add_zero, Nat.zero_add, Prod.mk.injEq]
    refine or_congr_left ⟨?_, ?_⟩
    · rintro (⟨rfl, rfl⟩ | ⟨j, p, rfl, hv⟩)
      · exact ⟨[], rfl, .inl ⟨rfl, rfl⟩⟩
      · exact ⟨j :: p, (List.append_cons ..).symm, .inr hv⟩
    · rintro ⟨_ | ⟨j, p⟩, rfl, ⟨hp, rfl⟩ | hv⟩
      · exact .inl ⟨rfl, rfl⟩
      · cases hv
      · cases hp
      · exact .inr ⟨j, p, List.append_cons .., hv⟩

/-- What is below the route with index `i` comes before the routes with later indices and what is below them. -/
theorem lt_of_mem_spots {x : Place × Visit H} {j : Nat} (h : x ∈ t.spots owner above q j) (hij : i < j) (p : Place) :
    q ++ i :: p < x.1 := by
  obtain ⟨k, rest, hplace, -⟩ := mem_spots.mp h
  rw [hplace]
  exact List.append_left_lt (List.cons_lt_cons_iff.mpr (.inl (by omega)))

theorem above_of_mem_spots {x : Place × Visit H} (h : x ∈ t.spots owner above q i) : Above q x.1 := by
  obtain ⟨k, rest, hplace, -⟩ := mem_spots.mp h
  exact above_iff.mpr ⟨_, rest, hplace⟩

theorem pairwise_spots (t : Tree H) (owner : Router H) (above : List (Route H)) (q : Place) (i : Nat) :
    (t.spots owner above q i).Pairwise fun x y => x.1 < y.1 := by
  induction t generalizing owner above q i with
  | nil => exact .nil
  | leaf r rest ih =>
    exact List.pairwise_cons.mpr ⟨fun y hy => lt_of_mem_spots hy (Nat.lt_succ_self i) [], ih owner above q (i + 1)⟩
  | mount r s inner rest ihInner ihRest =>
    have hrest (p : Place) (y) (hy : y ∈ rest.spots owner above q (i + 1)) : q ++ i :: p < y.1 :=
      lt_of_mem_spots hy (Nat.lt_succ_self i) p
    refine List.pairwise_cons.mpr ⟨fun y hy => ?_, List.pairwise_append.mpr ⟨ihInner .., ihRest .., ?_⟩⟩
    · rcases List.mem_append.mp hy with hy | hy
      · exact (above_of_mem_spots hy).lt
      · exact hrest [] y hy
    · intro x hx y hy
      obtain ⟨k, p, hplace⟩ := above_iff.mp (above_of_mem_spots hx)
      rw [hplace, List.append_assoc]
      exact hrest _ y hy

end Tree

namespace Walk

def error? : Walk ε → Option ε
  | stop e => some e
  | _ => none

def skips : Walk ε → Bool
  | skip => true
  | _ => false

end Walk

/-- A visit of a walk: where it was, what the visitor saw and what it wanted then. -/
structure Step (H ε : Type) where
  place : Place
  visit : Visit H
  wish : Walk ε

def skipped (steps : List (Step H ε)) : List Place := (steps.filter (·.wish.skips)).map (·.place)

theorem skipped_cons (x : Step H ε) (steps : List (Step H ε)) :
    skipped (x :: steps) = skipped [x] ++ skipped steps := by
  rw [skipped, skipped, skipped, ← List.map_append, ← List.filter_append, List.singleton_append]

def Below (ks : List Place) (p : Place) : Prop := ∃ k ∈ ks, Above k p

instance (ks : List Place) (p : Place) : Decidable (Below ks p) := inferInstanceAs (Decidable (∃ k ∈ ks, Above k p))

theorem below_append {ks ls : List Place} {p : Place} : Below (ks ++ ls) p ↔ Below ks p ∨ Below ls p := by
  simp only [Below, List.mem_append, or_and_right, exists_or]

/-- The places that are not below one of the places `ks`, in their order. -/
def remaining (ks ps : List Place) : List Place := ps.filter fun p => ¬ Below ks p

theorem remaining_cons_of_below {ks ps : List Place} {p : Place} (h : Below ks p) :
    remaining ks (p :: ps) = remaining ks ps :=
  List.filter_cons_of_neg (by simpa using h)

theorem remaining_cons {ks ps : List Place} {p : Place} (h : ¬ Below ks p) :
    remaining ks (p :: ps) = p :: remaining ks ps :=
  List.filter_cons_of_pos (by simpa using h)

/-- A walk through places in a row. It goes past those below the places `ks`, at which the visitor skipped before. -/
inductive Tours (visit : σ → Visit H → σ × Walk ε) :
    List Place → σ → List (Place × Visit H) → List (Step H ε) → σ × Option ε → Prop where
  | done {ks : List Place} {s : σ} : Tours visit ks s [] [] (s, none)
  | past {ks : List Place} {s : σ} {x : Place × Visit H} {l : List (Place × Visit H)} {steps : List (Step H ε)}
    {out : σ × Option ε} (hx : Below ks x.1) (h : Tours visit ks s l steps out) : Tours visit ks s (x :: l) steps out
  | stop {ks : List Place} {s s' : σ} {x : Place × Visit H} {l : List (Place × Visit H)} {e : ε}
    (hx : ¬ Below ks x.1) (hv : visit s x.2 = (s', .stop e)) :
    Tours visit ks s (x :: l) [⟨x.1, x.2, .stop e⟩] (s', some e)
  | onward {ks : List Place} {s s' : σ} {x : Place × Visit H} {w : Walk ε} {l : List (Place × Visit H)}
    {steps : List (Step H ε)} {out : σ × Option ε} (hx : ¬ Below ks x.1) (hv : visit s x.2 = (s', w))
    (hw : w.error? = none) (h : Tours visit (ks ++ skipped [⟨x.1, x.2, w⟩]) s' l steps out) :
    Tours visit ks s (x :: l) (⟨x.1, x.2, w⟩ :: steps) out

/-- What a visitor answers at visits one after the other, each time in the state in which those before left it. -/
def answers (visit : σ → Visit H → σ × Walk ε) : σ → List (Visit H) → List (Walk ε)
  | _, [] => []
  | s, v :: vs => (visit s v).2 :: answers visit (visit s v).1 vs

def stateAfter (visit : σ → Visit H → σ × Walk ε) (s : σ) (vs : List (Visit H)) : σ :=
  vs.foldl (fun s v => (visit s v).1) s

namespace Tours

variable {visit : σ → Visit H → σ × Walk ε} {ks : List Place} {s s' : σ} {l m : List (Place × Visit H)}
  {steps more : List (Step H ε)} {out : σ × Option ε} {e : ε}

theorem append_stopped (h : Tours visit ks s l steps (s', some e)) : Tours visit ks s (l ++ m) steps (s', some e) := by
  generalize hout : (s', some e) = out at h
  induction h with
  | done => cases hout
  | past hx _ ih => exact .past hx (ih hout)
  | stop hx hv => exact .stop hx hv
  | onward hx hv hw _ ih => exact .onward hx hv hw (ih hout)

/-- A walk that has not ended goes on, past the places below those at which it skipped. -/
theorem append (h : Tours visit ks s l steps (s', none))
    (hm : Tours visit (ks ++ skipped steps) s' m more out) : Tours visit ks s (l ++ m) (steps ++ more) out := by
  generalize hend : (s', none) = mid at h
  induction h with
  | done =>
    cases hend
    rwa [skipped, List.filter_nil, List.map_nil, List.append_nil] at hm
  | past hx _ ih => exact .past hx (ih hm hend)
  | stop hx hv => cases hend
  | onward hx hv hw _ ih =>
    rw [skipped_cons, ← List.append_assoc] at hm
    exact .onward hx hv hw (ih hm hend)

theorem past_all (h : ∀ x ∈ l, Below ks x.1) (hm : Tours visit ks s m steps out) :
    Tours visit ks s (l ++ m) steps out := by
  induction l with
  | nil => exact hm
  | cons x l ih =>
    obtain ⟨hx, hl⟩ := List.forall_mem_cons.mp h
    exact .past hx (ih hl)

theorem mem_of_mem (h : Tours visit ks s l steps out) {x : Step H ε} (hx : x ∈ steps) : (x.place, x.visit) ∈ l := by
  induction h with
  | done => cases hx
  | past _ _ ih => exact List.mem_cons_of_mem _ (ih hx)
  | stop =>
    obtain rfl := List.mem_singleton.mp hx
    exact List.mem_cons_self
  | onward _ _ _ _ ih =>
    rcases List.mem_cons.mp hx with rfl | hx
    · exact List.mem_cons_self
    · exact List.mem_cons_of_mem _ (ih hx)

theorem wishes (h : Tours visit ks s l steps out) :
    steps.map (·.wish) = answers visit s (steps.map (·.visit)) ∧ out.1 = stateAfter visit s (steps.map (·.visit)) := by
  induction h with
  | done => exact ⟨rfl, rfl⟩
  | past _ _ ih => exact ih
  | stop _ hv => simp [answers, stateAfter, hv]
  | onward _ hv _ _ ih => simp [answers, stateAfter, hv, ih.1, ih.2]

theorem ends (h : Tours visit ks s l steps out) :
    (out.2 = none → ∀ x ∈ steps, x.wish.error? = none) ∧
      ∀ e, out.2 = some e → ∃ before last, steps = before ++ [last] ∧ (∀ x ∈ before, x.wish.error? = none) ∧
        last.wish = .stop e := by
  induction h with
  | done => exact ⟨fun _ => List.forall_mem_nil _, nofun⟩
  | past _ _ ih => exact ih
  | stop _ hv =>
    refine ⟨nofun, ?_⟩
    rintro _ ⟨⟩
    exact ⟨[], _, rfl, List.forall_mem_nil _, rfl⟩
  | onward _ _ hw _ ih =>
    refine ⟨fun hnone => List.forall_mem_cons.mpr ⟨hw, ih.1 hnone⟩, fun e he => ?_⟩
    obtain ⟨before, last, rfl, hbefore, hlast⟩ := ih.2 e he
    exact ⟨_ :: before, last, rfl, List.forall_mem_cons.mpr ⟨hw, hbefore⟩, hlast⟩

/-- A place is not below the places at which a visitor skips there or later. -/
theorem not_below (h : Tours visit ks s l steps out) {p : Place} {x : Step H ε} (hx : x.place = p)
    (hlater : ∀ y ∈ l, p < y.1) : ¬ Below (skipped (x :: steps)) p := by
  rintro ⟨k, hk, habove⟩
  obtain ⟨y, hy, rfl⟩ := List.mem_map.mp hk
  rcases List.mem_cons.mp (List.mem_filter.mp hy).1 with rfl | hy
  · exact habove.2 hx
  · exact List.lt_asymm habove.lt (hlater _ (h.mem_of_mem hy))

/-- The visits are at the places which are not below one at which the visitor skipped, in their order. -/
theorem places (h : Tours visit ks s l steps out) (hl : l.Pairwise fun x y => x.1 < y.1) :
    steps.map (·.place) <+: remaining (ks ++ skipped steps) (l.map (·.1)) ∧
      (out.2 = none → steps.map (·.place) = remaining (ks ++ skipped steps) (l.map (·.1))) := by
  induction h with
  | done => exact ⟨List.prefix_rfl, fun _ => rfl⟩
  | past hx _ ih =>
    rw [List.map_cons, remaining_cons_of_below (below_append.mpr (.inl hx))]
    exact ih (List.pairwise_cons.mp hl).2
  | @stop ks s s' x l e hx hv =>
    have hnone : skipped [(⟨x.1, x.2, .stop e⟩ : Step H ε)] = [] := rfl
    rw [hnone, List.append_nil, List.map_cons, List.map_cons, remaining_cons hx]
    exact ⟨List.cons_prefix_cons.mpr ⟨rfl, List.nil_prefix⟩, nofun⟩
  | @onward ks s s' x w l steps out hx hv hw h ih =>
    obtain ⟨hfirst, hl⟩ := List.pairwise_cons.mp hl
    have hkept : ¬ Below (ks ++ skipped (⟨x.1, x.2, w⟩ :: steps)) x.1 :=
      fun hb => (below_append.mp hb).elim hx (h.not_below rfl hfirst)
    obtain ⟨horder, hall⟩ := ih hl
    rw [List.append_assoc, ← skipped_cons] at horder hall
    rw [List.map_cons, List.map_cons, remaining_cons hkept]
    exact ⟨List.cons_prefix_cons.mpr ⟨rfl, horder⟩, fun hnone => congrArg _ (hall hnone)⟩

end Tours

namespace Tree

variable {visit : σ → Visit H → σ × Walk ε} {ks : List Place} {q : Place} {i : Nat}

/-- What is below one route is not below what is below another one. -/
theorem not_above_of_mem_spots {t : Tree H} {owner : Router H} {above : List (Route H)} {j : Nat} {x : Place × Visit H}
    (h : x ∈ t.spots owner above q j) (hij : i < j) (p : Place) : ¬ Above (q ++ i :: p) x.1 := by
  rintro ⟨⟨more, hprefix⟩, -⟩
  obtain ⟨k, rest, hplace, -⟩ := mem_spots.mp h
  rw [hplace, List.append_assoc, List.append_cancel_left_eq, List.cons_append, List.cons.injEq] at hprefix
  omega

/-- After visits at a route and below it, the places of the later routes are as free as before. -/
theorem not_below_rest {t : Tree H} {owner : Router H} {above : List (Route H)} {steps : List (Step H ε)}
    (hks : ∀ x ∈ t.spots owner above q (i + 1), ¬ Below ks x.1)
    (hsteps : ∀ y ∈ steps, ∃ p, y.place = q ++ i :: p) :
    ∀ x ∈ t.spots owner above q (i + 1), ¬ Below (ks ++ skipped steps) x.1 := by
  intro x hx hb
  rcases below_append.mp hb with hb | ⟨k, hk, habove⟩
  · exact hks x hx hb
  · obtain ⟨y, hy, rfl⟩ := List.mem_map.mp hk
    obtain ⟨p, hp⟩ := hsteps y (List.mem_filter.mp hy).1
    rw [hp] at habove
    exact not_above_of_mem_spots hx (Nat.lt_succ_self i) p habove

theorem place_here (q : Place) (i : Nat) (v : Visit H) (w : Walk ε) :
    ∀ y ∈ [(⟨q ++ [i], v, w⟩ : Step H ε)], ∃ p, y.place = q ++ i :: p := List.forall_mem_singleton.mpr ⟨[], rfl⟩

theorem exists_tours (visit : σ → Visit H → σ × Walk ε) (t : Tree H) (owner : Router H) (above : List (Route H))
    (ks : List Place) (q : Place) (i : Nat) (s : σ) (hks : ∀ x ∈ t.spots owner above q i, ¬ Below ks x.1) :
    ∃ steps, Tours visit ks s (t.spots owner above q i) steps (t.walk visit owner above s) := by
  induction t generalizing owner above q i ks s with
  | nil => exact ⟨[], .done⟩
  | leaf r rest ih =>
    obtain ⟨hx, hrest⟩ := List.forall_mem_cons.mp hks
    rw [walk]
    cases hv : visit s ⟨r, owner, above⟩ with
    | mk s' w =>
      have hpast := ih owner above _ q (i + 1) s' (not_below_rest hrest (place_here q i ⟨r, owner, above⟩ w))
      cases w with
      | stop e => exact ⟨_, .stop hx hv⟩
      | skip => exact hpast.imp' _ fun steps h => .onward hx hv rfl h
      | «continue» => exact hpast.imp' _ fun steps h => .onward hx hv rfl h
  | mount r settings inner rest ihInner ihRest =>
    obtain ⟨hx, hbelow⟩ := List.forall_mem_cons.mp hks
    obtain ⟨hinner, hrest⟩ := List.forall_mem_append.mp hbelow
    rw [walk]
    cases hv : visit s ⟨r, owner, above⟩ with
    | mk s' w =>
      have hpast := not_below_rest hrest (place_here q i ⟨r, owner, above⟩ w)
      cases w with
      | stop e => exact ⟨_, .stop hx hv⟩
      | skip =>
        obtain ⟨steps, h⟩ := ihRest owner above _ q (i + 1) s' hpast
        refine ⟨_, .onward hx hv rfl (.past_all (fun y hy => below_append.mpr (.inr ?_)) h)⟩
        exact ⟨_, List.mem_cons_self, above_of_mem_spots hy⟩
      | «continue» =>
        rw [← List.append_nil ks] at hinner
        obtain ⟨steps, h⟩ := ihInner ⟨settings, inner⟩ (above ++ [r]) _ (q ++ [i]) 0 s' hinner
        dsimp only
        cases hwalk : inner.walk visit ⟨settings, inner⟩ (above ++ [r]) s' with
        | mk s'' result =>
          rw [hwalk] at h
          cases result with
          | some e => exact ⟨_, .onward hx hv rfl h.append_stopped⟩
          | none =>
            have hbelow : ∀ y ∈ steps, ∃ p, y.place = q ++ i :: p := by
              intro y hy
              obtain ⟨j, p, hp⟩ := above_iff.mp (above_of_mem_spots (h.mem_of_mem hy))
              exact ⟨j :: p, hp.trans (List.append_cons q i (j :: p)).symm⟩
            obtain ⟨more, hm⟩ := ihRest owner above _ q (i + 1) s'' (not_below_rest hpast hbelow)
            exact ⟨_, .onward hx hv rfl (h.append hm)⟩

end Tree

def recording (visit : σ → Visit H → σ × Walk ε) (s : σ × List (Visit H)) (v : Visit H) :
    (σ × List (Visit H)) × Walk ε :=
  (((visit s.1 v).1, s.2 ++ [v]), (visit s.1 v).2)

theorem Tree.walk_recording (visit : σ → Visit H → σ × Walk ε) (t : Tree H) (owner : Router H)
    (above : List (Route H)) (s : σ) (seen : List (Visit H)) :
    t.walk visit owner above s = ((t.walk (recording visit) owner above (s, seen)).1.1,
      (t.walk (recording visit) owner above (s, seen)).2) := by
  induction t generalizing owner above s seen with
  | nil => rfl
  | leaf r rest ih =>
    simp only [walk, recording]
    obtain ⟨s', w⟩ := visit s ⟨r, owner, above⟩
    cases w with
    | stop e => rfl
    | skip => exact ih ..
    | «continue» => exact ih ..
  | mount r settings inner rest ihInner ihRest =>
    simp only [walk, recording]
    obtain ⟨s', w⟩ := visit s ⟨r, owner, above⟩
    cases w with
    | stop e => rfl
    | skip => exact ihRest ..
    | «continue» =>
      dsimp only
      rw [ihInner ⟨settings, inner⟩ (above ++ [r]) s' (seen ++ [⟨r, owner, above⟩])]
      cases inner.walk (recording visit) ⟨settings, inner⟩ (above ++ [r]) (s', seen ++ [⟨r, owner, above⟩]) with
      | mk kept result =>
        cases result with
        | some e => rfl
        | none => exact ihRest ..

theorem Tours.of_recording {visit : σ → Visit H → σ × Walk ε} {ks : List Place} {s : σ × List (Visit H)}
    {l : List (Place × Visit H)} {steps : List (Step H ε)} {out : (σ × List (Visit H)) × Option ε}
    (h : Tours (recording visit) ks s l steps out) :
    Tours visit ks s.1 l steps (out.1.1, out.2) ∧ out.1.2 = s.2 ++ steps.map (·.visit) := by
  induction h with
  | done => exact ⟨.done, (List.append_nil _).symm⟩
  | past hx _ ih => exact ⟨.past hx ih.1, ih.2⟩
  | stop hx hv =>
    obtain ⟨rfl, hstop⟩ := Prod.mk.inj hv
    exact ⟨.stop hx (Prod.ext rfl hstop), rfl⟩
  | onward hx hv hw _ ih =>
    obtain ⟨rfl, rfl⟩ := Prod.mk.inj hv
    exact ⟨.onward hx rfl hw ih.1, ih.2.trans (List.append_assoc ..)⟩

namespace Tree

variable {owner : Router H} {above : List (Route H)} {q : Place} {i : Nat}

theorem walk_continue (t : Tree H) (owner : Router H) (above : List (Route H)) (q : Place) (i : Nat)
    (seen : List (Visit H)) :
    t.walk (ε := Empty) (recording fun (_ : Unit) _ => ((), .continue)) owner above ((), seen) =
      (((), seen ++ (t.spots owner above q i).map (·.2)), none) := by
  induction t generalizing owner above q i seen with
  | nil => simp [walk, spots]
  | leaf r rest ih => simp [walk, spots, recording, ih _ _ q (i + 1)]
  | mount r settings inner rest ihInner ihRest =>
    simp [walk, spots, recording, ihInner _ _ (q ++ [i]) 0, ihRest _ _ q (i + 1)]

theorem spots_route (t : Tree H) (owner : Router H) (above : List (Route H)) (q : Place) (i : Nat) :
    (t.spots owner above q i).map (·.2.route) = t.flatten := by
  induction t generalizing owner above q i with
  | nil => rfl
  | leaf r rest ih => simp [spots, flatten, ih]
  | mount r settings inner rest ihInner ihRest => simp [spots, flatten, ihInner, ihRest]

/-- The first error of a tree is that of the first route with one, in the order of the routes. -/
theorem firstError_eq (t : Tree H) : t.firstError = t.flatten.findSome? (·.error) := by
  induction t with
  | nil => rfl
  | leaf r rest ih =>
    rw [firstError, flatten, List.findSome?_cons, ih]
    cases r.error <;> rfl
  | mount r settings inner rest ihInner ihRest =>
    rw [firstError, flatten, List.findSome?_cons, List.findSome?_append, ihInner, ihRest]
    cases r.error <;> rfl

theorem find?_route (id : RouteId) (t : Tree H) : (t.find? id).map (·.route) = t.flatten.find? (·.id = id) := by
  induction t with
  | nil => rfl
  | leaf r rest ih =>
    by_cases hid : r.id = id
    · rw [find?, if_pos hid, flatten, List.find?_cons_of_pos (by simpa using hid)]
      rfl
    · rw [find?, if_neg hid, flatten, List.find?_cons_of_neg (by simpa using hid), ih]
  | mount r settings inner rest ihInner ihRest =>
    by_cases hid : r.id = id
    · rw [find?, if_pos hid, flatten, List.find?_cons_of_pos (by simpa using hid)]
      rfl
    · rw [find?, if_neg hid, flatten, List.find?_cons_of_neg (by simpa using hid), List.find?_append, ← ihInner,
        ← ihRest, Option.map_or]

end Tree

namespace Router

variable {visit : σ → Visit H → σ × Walk ε} {r : Router H}

/-- The places of the routes of a router and of those below it, in the order of their indices. -/
def places (r : Router H) : List Place := (r.routes.spots r [] [] 0).map (·.1)

/-- What a visitor sees at a place. -/
def visitAt? (r : Router H) (p : Place) : Option (Visit H) := r.routes.visitAt? r [] p

/-- What a walk sees that never skips and never ends. -/
def fullWalk (r : Router H) : List (Visit H) :=
  (r.walk (ε := Empty) (recording fun (_ : Unit) _ => ((), .continue)) ((), [])).1.2

/-- The visits of a walk from the state `s` on, which has the outcome `out`. -/
structure Walked (r : Router H) (visit : σ → Visit H → σ × Walk ε) (s : σ) (steps : List (Step H ε))
    (out : σ × Option ε) : Prop where
  /-- The walk comes to this outcome, and this is what the visitor sees on the way. -/
  walk : r.walk visit s = out ∧
    r.walk (recording visit) (s, []) = ((out.1, steps.map (·.visit)), out.2)
  sees : ∀ x ∈ steps, r.visitAt? x.place = some x.visit
  /-- The visitor answers each time in the state in which the visits before left it. -/
  wishes : steps.map (·.wish) = answers visit s (steps.map (·.visit))
  state : out.1 = stateAfter visit s (steps.map (·.visit))
  /-- The places are those in the order of the tree that are not below a skipped one. -/
  order : steps.map (·.place) <+: remaining (skipped steps) r.places
  all : out.2 = none →
    (∀ x ∈ steps, x.wish.error? = none) ∧ steps.map (·.place) = remaining (skipped steps) r.places
  /-- The first error ends the walk and is its result. -/
  stopped : ∀ e, out.2 = some e → ∃ before last, steps = before ++ [last] ∧
    (∀ x ∈ before, x.wish.error? = none) ∧ last.wish = .stop e

theorem pairwise_places (r : Router H) : r.places.Pairwise (· < ·) :=
  List.pairwise_map.mpr (r.routes.pairwise_spots r [] [] 0)

theorem mem_spots_iff {p : Place} {v : Visit H} : (p, v) ∈ r.routes.spots r [] [] 0 ↔ r.visitAt? p = some v := by
  rw [Tree.mem_spots, visitAt?]
  constructor
  · rintro ⟨j, rest, rfl, hv⟩
    rwa [List.nil_append, Nat.zero_add]
  · intro hv
    cases p with
    | nil => cases hv
    | cons j rest => exact ⟨j, rest, by rw [List.nil_append, Nat.zero_add], hv⟩

theorem mem_places {p : Place} : p ∈ r.places ↔ (r.visitAt? p).isSome = true := by
  rw [places, List.mem_map, Option.isSome_iff_exists]
  constructor
  · rintro ⟨⟨p, v⟩, hx, rfl⟩
    exact ⟨v, mem_spots_iff.mp hx⟩
  · rintro ⟨v, hv⟩
    exact ⟨(p, v), mem_spots_iff.mpr hv, rfl⟩

theorem exists_walked (r : Router H) (visit : σ → Visit H → σ × Walk ε) (s : σ) :
    ∃ steps out, r.Walked visit s steps out := by
  have hfree : ∀ x ∈ r.routes.spots r [] [] 0, ¬ Below [] x.1 := by
    rintro x - ⟨k, hk, -⟩
    cases hk
  obtain ⟨steps, hrecorded⟩ := r.routes.exists_tours (recording visit) r [] [] [] 0 (s, []) hfree
  obtain ⟨htours, hseen⟩ := hrecorded.of_recording
  rw [← Tree.walk_recording] at htours
  obtain ⟨horder, hall⟩ := htours.places (r.routes.pairwise_spots r [] [] 0)
  obtain ⟨hfinish, hstop⟩ := htours.ends
  obtain ⟨hwishes, hstate⟩ := htours.wishes
  have hsame := Tree.walk_recording visit r.routes r [] s []
  refine ⟨steps, r.walk visit s, ⟨rfl, ?_⟩, fun x hx => mem_spots_iff.mp (htours.mem_of_mem hx), hwishes, hstate,
    horder, fun hnone => ⟨hfinish hnone, hall hnone⟩, hstop⟩
  rw [walk, walk, hsame]
  exact Prod.ext (Prod.ext rfl hseen) rfl

theorem fullWalk_eq (r : Router H) : r.fullWalk = (r.routes.spots r [] [] 0).map (·.2) := by
  rw [fullWalk, walk, Tree.walk_continue _ _ _ [] 0]
  rfl

theorem map_route_fullWalk (r : Router H) : r.fullWalk.map (·.route) = r.routes.flatten := by
  rw [fullWalk_eq, List.map_map]
  exact r.routes.spots_route r [] [] 0

theorem map_some_fullWalk (r : Router H) : r.fullWalk.map some = r.places.map r.visitAt? := by
  rw [fullWalk_eq, places, List.map_map, List.map_map]
  exact List.map_congr_left fun x hx => (mem_spots_iff.mp hx).symm

theorem mem_fullWalk {v : Visit H} : v ∈ r.fullWalk ↔ ∃ p, r.visitAt? p = some v := by
  rw [fullWalk_eq, List.mem_map]
  constructor
  · rintro ⟨x, hx, rfl⟩
    exact ⟨x.1, mem_spots_iff.mp hx⟩
  · rintro ⟨p, hp⟩
    exact ⟨(p, v), mem_spots_iff.mpr hp, rfl⟩

theorem firstError_fullWalk (r : Router H) : r.firstError = r.fullWalk.findSome? (·.route.error) := by
  have hroutes : r.fullWalk.findSome? (·.route.error) = (r.fullWalk.map (·.route)).findSome? (·.error) := by
    rw [List.findSome?_map]
    rfl
  rw [firstError, Tree.firstError_eq, hroutes, map_route_fullWalk]

theorem named?_fullWalk (r : Router H) (st : Setup) (name : String) :
    (r.named? st name).map (·.route) =
      (r.fullWalk.map (·.route)).find? fun route => st.names.lookup name = some route.id := by
  rw [map_route_fullWalk, named?]
  cases st.names.lookup name with
  | none => exact (List.find?_eq_none.mpr (by simp)).symm
  | some id =>
    rw [Option.bind_some, Tree.find?_route]
    simp only [Option.some_inj, eq_comm]

/-- The places of a tree are in the order of their indices. A walk with any visitor goes through them in that order,
past those below a place where the visitor skips, until the visitor ends it; at each place the visitor sees the route,
its router and the mounts above. The first error of a router and the route with a name are those of a full walk. -/
theorem walk_prunes (r : Router H) (visit : σ → Visit H → σ × Walk ε) (s : σ) :
    (r.places.Pairwise (· < ·) ∧ (∀ p, p ∈ r.places ↔ (r.visitAt? p).isSome = true) ∧
      r.fullWalk.map some = r.places.map r.visitAt?) ∧
    (∃ steps out, r.Walked visit s steps out) ∧
    (r.firstError = r.fullWalk.findSome? (·.route.error) ∧
      (r.firstError = none ↔ ∀ p v, r.visitAt? p = some v → v.route.error = none)) ∧
    ∀ (st : Setup) (name : String),
      (r.named? st name).map (·.route) =
        ((r.fullWalk.map (·.route)).find? fun route => st.names.lookup name = some route.id) ∧
      ((r.named? st name).isSome = true ↔ ∃ v ∈ r.fullWalk, st.names.lookup name = some v.route.id) := by
  refine ⟨⟨r.pairwise_places, fun p => mem_places, r.map_some_fullWalk⟩, r.exists_walked visit s,
    ⟨r.firstError_fullWalk, ?_⟩, fun st name => ⟨r.named?_fullWalk st name, ?_⟩⟩
  · rw [firstError_fullWalk, List.findSome?_eq_none_iff]
    simp only [mem_fullWalk]
    exact ⟨fun h p v hv => h v ⟨p, hv⟩, fun h v ⟨p, hv⟩ => h p v hv⟩
  · rw [← Option.isSome_map, named?_fullWalk, List.find?_map, Option.isSome_map, List.find?_isSome]
    simp only [Function.comp, decide_eq_true_eq]

end Router

end RequestRouter
