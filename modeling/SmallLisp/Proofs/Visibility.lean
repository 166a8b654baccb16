import SmallLisp.Heap
import SmallLisp.Proofs.HeadResolution
import SmallLisp.Proofs.SoundHeaps

/-! # Where a definition is seen

A definition in a frame is seen from the frames out of which one comes to it without meeting the
name before (`Heap.Sees`).  This is said of the links between the frames alone, in terms of the ways
outward, and `Heap.outward_induction` is the one induction along them.

From where it is seen, the definition is what the name means; from everywhere else, and for every
other name, everything stays as it was (`Heap.definition_visible`).  Whether there is a binding,
what it is and where it stands are answered alike, and it makes no difference whether the name is
given as a text or as a symbol.
-/
namespace SmallLisp

/-- Bindings come before those of the table that they are put into. -/
theorem Table.get?_insertAll_eq_or {κ α : Type} [DecidableEq κ] (t : Table κ α)
    (bindings : List (κ × α)) (key : κ) :
    (t.insertAll bindings).get? key =
      ((Table.empty.insertAll bindings).get? key).or (t.get? key) := by
  induction bindings generalizing t with
  | nil => rfl
  | cons b rest ih =>
    obtain ⟨k, v⟩ := b
    rw [insertAll_cons, insertAll_cons, ih, ih (Table.empty.insert k v), get?_insert, get?_insert]
    by_cases hk : k = key <;> simp [hk]

namespace Heap
variable {h : Heap} {F G g o : FrameId} {name other : String} {v : Value}

/-- A binding of a name in the frame `F` would be seen from the frame `G`: outward from `G` one
comes to `F`, and no frame on the way there binds the name. -/
structure Sees (h : Heap) (G F : FrameId) (name : String) : Prop where
  exist : G < h.size
  outward : Relation.ReflTransGen h.Around G F
  unhidden : ∀ g, Relation.ReflTransGen h.Around G g → Relation.TransGen h.Around g F →
    h.own? g name = none

/-! ## The ways outward -/

theorem Around.lt_size (ha : h.Around G o) : G < h.size := by
  obtain ⟨f, hf, -⟩ := Option.bind_eq_some_iff.1 ha
  exact h.lt_size_of_frame hf

/-- What holds of the frames that are not there and of the outermost ones, and passes inward, holds
of all. -/
theorem outward_induction {P : FrameId → Prop} (h : Heap) (absent : ∀ G, h.size ≤ G → P G)
    (outermost : ∀ G, G < h.size → h.outer? G = none → P G)
    (inside : ∀ G o, h.Around G o → P o → P G) (G : FrameId) : P G := by
  induction G using Nat.strongRecOn with
  | ind G ih =>
    by_cases hG : G < h.size
    · rcases ho : h.outer? G with _ | o
      · exact outermost G hG ho
      · have ha : h.Around G o := ho
        exact inside G o ha (ih o ha.lt)
    · exact absent G (Nat.le_of_not_lt hG)

theorem chain_of_size_le (hG : h.size ≤ G) : h.chain G = [] := by
  rw [chain_eq, if_neg (Nat.not_lt.2 hG)]

theorem chain_outermost (hG : G < h.size) (ho : h.outer? G = none) : h.chain G = [G] := by
  rw [chain_eq, if_pos hG, ho]

theorem chain_of_around (ha : h.Around G o) : h.chain G = G :: h.chain o := by
  have ho : h.outer? G = some o := ha
  rw [chain_eq, if_pos ha.lt_size, ho]

theorem not_around_of_outermost (ho : h.outer? G = none) : ¬ h.Around G o := by
  intro ha
  have hsome : h.outer? G = some o := ha
  rw [ho] at hsome
  cases hsome

/-- Outward from an outermost frame there is only this one. -/
theorem eq_of_outward_outermost (ho : h.outer? G = none)
    (hF : Relation.ReflTransGen h.Around G F) : F = G := by
  rcases hF.cases_head with heq | ⟨c, hc, -⟩
  · exact heq.symm
  · exact absurd hc (not_around_of_outermost ho)

/-- Outward from a frame inside another there are the frame and what is outward from the other. -/
theorem outward_of_around_iff (ha : h.Around G o) :
    Relation.ReflTransGen h.Around G F ↔ F = G ∨ Relation.ReflTransGen h.Around o F := by
  constructor
  · intro hF
    rcases hF.cases_head with heq | ⟨c, hc, hcF⟩
    · exact .inl heq.symm
    · have hco : some o = some c := ha.symm.trans hc
      cases hco
      exact .inr hcF
  · rintro (rfl | hF)
    · exact .refl
    · exact .head ha hF

/-- From a frame that is there its own binding is seen. -/
theorem sees_self (hG : G < h.size) (name : String) : h.Sees G G name where
  exist := hG
  outward := .refl
  unhidden _ hg hback := absurd (hback.trans_left hg) (not_transGen_around _)

theorem sees_outermost_iff (hG : G < h.size) (ho : h.outer? G = none) :
    h.Sees G F name ↔ F = G := by
  constructor
  · intro hs
    exact eq_of_outward_outermost ho hs.outward
  · rintro rfl
    exact sees_self hG name

/-- From a frame inside another its own binding is seen and, unless there is one, what is seen from
the other. -/
theorem sees_of_around_iff (ha : h.Around G o) :
    h.Sees G F name ↔ F = G ∨ h.own? G name = none ∧ h.Sees o F name := by
  have hexist : o < h.size := Nat.lt_trans ha.lt ha.lt_size
  constructor
  · intro hs
    refine ((outward_of_around_iff ha).1 hs.outward).imp_right fun hF => ?_
    refine ⟨hs.unhidden G .refl (.head' ha hF), hexist, hF, fun g hg hgF => ?_⟩
    exact hs.unhidden g (.head ha hg) hgF
  · rintro (rfl | ⟨hown, hs⟩)
    · exact sees_self ha.lt_size name
    · refine ⟨ha.lt_size, .head ha hs.outward, fun g hg hgF => ?_⟩
      rcases (outward_of_around_iff ha).1 hg with rfl | hg
      · exact hown
      · exact hs.unhidden g hg hgF

/-! ## Looking outward -/

theorem find?_of_size_le (hG : h.size ≤ G) : h.find? G name = none := by
  rw [find?, chain_of_size_le hG, List.find?_nil]

theorem find?_outermost (hG : G < h.size) (ho : h.outer? G = none) :
    h.find? G name = if (h.own? G name).isSome then some G else none := by
  rw [find?, chain_outermost hG ho, List.find?_cons, List.find?_nil]
  split <;> simp_all

theorem find?_of_around (ha : h.Around G o) :
    h.find? G name = if (h.own? G name).isSome then some G else h.find? o name := by
  rw [find?, chain_of_around ha, List.find?_cons, find?]
  split <;> simp_all

theorem get?_of_size_le (hG : h.size ≤ G) : h.get? G name = none := by
  rw [get?, chain_of_size_le hG, List.findSome?_nil]

theorem get?_outermost (hG : G < h.size) (ho : h.outer? G = none) :
    h.get? G name = h.own? G name := by
  rw [get?, chain_outermost hG ho]
  simp

theorem get?_of_around (ha : h.Around G o) :
    h.get? G name = (h.own? G name).or (h.get? o name) := by
  rw [get?, chain_of_around ha, List.findSome?_cons, get?]
  cases h.own? G name <;> rfl

/-- **The frame found is the nearest that binds the name.** -/
theorem find?_eq_some_iff :
    h.find? G name = some F ↔ h.Sees G F name ∧ (h.own? F name).isSome = true := by
  induction G using h.outward_induction with
  | absent G hG =>
    rw [find?_of_size_le hG]
    exact ⟨nofun, fun hs => absurd hs.1.exist (Nat.not_lt.2 hG)⟩
  | outermost G hG ho =>
    rw [find?_outermost hG ho, sees_outermost_iff hG ho, Option.ite_none_right_eq_some,
      Option.some_inj]
    constructor
    · rintro ⟨hown, rfl⟩
      exact ⟨rfl, hown⟩
    · rintro ⟨rfl, hown⟩
      exact ⟨hown, rfl⟩
  | inside G o ha ih =>
    rw [find?_of_around ha, sees_of_around_iff ha]
    by_cases hown : (h.own? G name).isSome = true
    · rw [if_pos hown, Option.some_inj]
      constructor
      · rintro rfl
        exact ⟨.inl rfl, hown⟩
      · rintro ⟨rfl | ⟨hnone, -⟩, -⟩
        · rfl
        · rw [hnone] at hown
          cases hown
    · rw [if_neg hown, ih]
      constructor
      · rintro ⟨hs, hF⟩
        exact ⟨.inr ⟨Option.not_isSome_iff_eq_none.1 hown, hs⟩, hF⟩
      · rintro ⟨rfl | ⟨-, hs⟩, hF⟩
        · exact absurd hF hown
        · exact ⟨hs, hF⟩

/-- No frame is found exactly if none that one meets outward binds the name. -/
theorem find?_eq_none_iff : h.find? G name = none ↔
    ∀ F, Relation.ReflTransGen h.Around G F → h.own? F name = none := by
  induction G using h.outward_induction with
  | absent G hG =>
    have ho : h.outer? G = none := by
      rw [outer?, (h.frames_eq_none_iff G).2 hG, Option.bind_none]
    refine iff_of_true (find?_of_size_le hG) fun F hF => ?_
    rw [eq_of_outward_outermost ho hF]
    exact own?_of_size_le hG name
  | outermost G hG ho =>
    rw [find?_outermost hG ho, ite_eq_right_iff]
    constructor
    · intro hnone F hF
      rw [eq_of_outward_outermost ho hF]
      by_contra hsome
      cases hnone (Option.isSome_iff_ne_none.2 hsome)
    · intro hnone hsome
      rw [hnone G .refl] at hsome
      cases hsome
  | inside G o ha ih =>
    rw [find?_of_around ha]
    by_cases hown : (h.own? G name).isSome = true
    · rw [if_pos hown]
      refine iff_of_false (Option.some_ne_none G) fun hnone => ?_
      rw [hnone G .refl] at hown
      cases hown
    · rw [if_neg hown, ih]
      constructor
      · intro hnone F hF
        rcases (outward_of_around_iff ha).1 hF with rfl | hF
        · exact Option.not_isSome_iff_eq_none.1 hown
        · exact hnone F hF
      · intro hnone F hF
        exact hnone F (.head ha hF)

/-- A name means what the frame that is found binds it to. -/
theorem get?_eq_bind_find? (h : Heap) (G : FrameId) (name : String) :
    h.get? G name = (h.find? G name).bind (h.own? · name) := by
  induction G using h.outward_induction with
  | absent G hG => rw [get?_of_size_le hG, find?_of_size_le hG, Option.bind_none]
  | outermost G hG ho =>
    rw [get?_outermost hG ho, find?_outermost hG ho]
    cases hown : h.own? G name <;> simp [hown]
  | inside G o ha ih =>
    rw [get?_of_around ha, find?_of_around ha, ih]
    cases hown : h.own? G name <;> simp [hown]

/-! ## Definitions -/

theorem around_define_iff : (h.define F name v).Around G o ↔ h.Around G o := by
  rw [Around, outer?_define, Around]

/-- What a definition binds in a frame changes nothing about what is seen of this frame: the frames
on the way to it are others. -/
theorem sees_define_iff : (h.define F name v).Sees G F other ↔ h.Sees G F other := by
  have haround : (h.define F name v).Around = h.Around := by
    funext G o
    exact propext around_define_iff
  have hown : ∀ g, Relation.TransGen h.Around g F →
      (h.define F name v).own? g other = h.own? g other := by
    intro g hg
    refine (own?_define h F g name other v).trans (if_neg ?_)
    rintro ⟨rfl, -⟩
    exact not_transGen_around _ hg
  constructor
  · rintro ⟨hG, hF, hnone⟩
    rw [size_define] at hG
    rw [haround] at hF hnone
    exact ⟨hG, hF, fun g hg hgF => by rw [← hown g hgF, hnone g hg hgF]⟩
  · rintro ⟨hG, hF, hnone⟩
    refine ⟨by rwa [size_define], by rwa [haround], fun g hg hgF => ?_⟩
    rw [haround] at hg hgF
    rw [hown g hgF, hnone g hg hgF]

theorem Sees.lt_size (hs : h.Sees G F name) : F < h.size := by
  rcases hs.outward.cases_tail with rfl | ⟨g, -, ha⟩
  · exact hs.exist
  · exact Nat.lt_trans ha.lt ha.lt_size

open Classical in
/-- **Where a name is found after a definition.** -/
theorem find?_define (h : Heap) (F G : FrameId) (name other : String) (v : Value) :
    (h.define F name v).find? G other =
      if name = other ∧ h.Sees G F other then some F else h.find? G other := by
  induction G using h.outward_induction with
  | absent G hG =>
    have hdefined : (h.define F name v).size ≤ G := by rwa [size_define]
    rw [find?_of_size_le hdefined, find?_of_size_le hG, if_neg]
    rintro ⟨-, hs⟩
    exact Nat.not_lt.2 hG hs.exist
  | outermost G hG ho =>
    have hdefined : G < (h.define F name v).size := by rwa [size_define]
    rw [find?_outermost hdefined (by rwa [outer?_define]), find?_outermost hG ho, own?_define,
      sees_outermost_iff hG ho]
    by_cases hGF : G = F
    · subst hGF
      by_cases hname : name = other <;> simp [hname, hG]
    · simp [hGF, Ne.symm hGF]
  | inside G o ha ih =>
    rw [find?_of_around (around_define_iff.2 ha), find?_of_around ha, ih, own?_define,
      sees_of_around_iff ha]
    by_cases hGF : G = F
    · subst hGF
      by_cases hname : name = other <;> simp [hname, ha.lt_size]
    · cases hown : h.own? G other <;> simp [hGF, Ne.symm hGF]

open Classical in
/-- **What a name means after a definition.** -/
theorem get?_define (h : Heap) (F G : FrameId) (name other : String) (v : Value) :
    (h.define F name v).get? G other =
      if name = other ∧ h.Sees G F other then some v else h.get? G other := by
  rw [get?_eq_bind_find?, find?_define]
  by_cases hseen : name = other ∧ h.Sees G F other
  · rw [if_pos hseen, if_pos hseen, Option.bind_some, own?_define,
      if_pos ⟨rfl, hseen.1, hseen.2.lt_size⟩]
  · rw [if_neg hseen, if_neg hseen, get?_eq_bind_find?]
    cases hfind : h.find? G other with
    | none => rfl
    | some E =>
      -- what is found is seen, so it is not the binding that was changed
      rw [Option.bind_some, Option.bind_some, own?_define, if_neg]
      rintro ⟨rfl, hname, -⟩
      exact hseen ⟨hname, (find?_eq_some_iff.1 hfind).1⟩

theorem root_define (h : Heap) (F G : FrameId) (name : String) (v : Value) :
    (h.define F name v).root G = h.root G := by
  rw [root, root, chain_define]

/-! ## Several definitions in a frame -/

theorem update_cons (h : Heap) (F : FrameId) (name : String) (v : Value)
    (rest : List (String × Value)) :
    h.update F ((name, v) :: rest) = (h.define F name v).update F rest := rfl

open Classical in
/-- **What a name means after several definitions in a frame**: from where they are seen it is the
last of them that counts. -/
theorem get?_update (h : Heap) (F G : FrameId) (bindings : List (String × Value))
    (other : String) :
    (h.update F bindings).get? G other =
      if h.Sees G F other then
        ((Table.empty.insertAll bindings).get? other).or (h.get? G other)
      else h.get? G other := by
  induction bindings generalizing h with
  | nil => exact (ite_self _).symm
  | cons b rest ih =>
    obtain ⟨name, v⟩ := b
    rw [update_cons, ih, sees_define_iff, get?_define, Table.insertAll_cons,
      Table.get?_insertAll_eq_or (Table.empty.insert name v), Table.get?_insert]
    by_cases hseen : h.Sees G F other
    · by_cases hname : name = other <;> simp [hseen, hname]
    · simp [hseen]

/-! ## Asking -/

/-- How a name is asked for from a frame, and what the answers have to do with each other. -/
structure Answers (h : Heap) (G : FrameId) (asked : Key) : Prop where
  /-- What is found is the nearest frame that binds the name. -/
  nearest : ∀ F, h.find? G asked = some F ↔ h.Sees G F asked ∧ (h.own? F asked).isSome = true
  /-- Nothing is found exactly if no frame outward binds the name. -/
  nowhere : h.find? G asked = none ↔
    ∀ F, Relation.ReflTransGen h.Around G F → h.own? F asked = none
  /-- A value is got exactly if a frame is found, which binds the name to it. -/
  value : ∀ w, h.get? G asked = some w ↔
    ∃ F, h.find? G asked = some F ∧ h.own? F asked = some w
  /-- None is got exactly if nothing is found. -/
  absent : h.get? G asked = none ↔ h.find? G asked = none
  /-- The name is looked up with the value that is got. -/
  lookup : ∀ w, Scope.plain h G asked = .ok w ↔ h.get? G asked = some w
  /-- It is undefined exactly if none is got, and that is all that can go wrong. -/
  undefined : ∀ e, Scope.plain h G asked = .error e ↔
    h.get? G asked = none ∧ e = .undefinedSymbol asked

theorem get?_eq_none_iff_find? : h.get? G name = none ↔ h.find? G name = none := by
  rw [get?_eq_bind_find?]
  cases hfind : h.find? G name with
  | none => simp
  | some F =>
    have hown := (find?_eq_some_iff.1 hfind).2
    refine iff_of_false (fun hnone => ?_) nofun
    rw [Option.bind_some] at hnone
    rw [hnone] at hown
    cases hown

theorem answers (h : Heap) (G : FrameId) (asked : Key) : Answers h G asked where
  nearest _ := find?_eq_some_iff
  nowhere := find?_eq_none_iff
  value _ := by rw [get?_eq_bind_find?, Option.bind_eq_some_iff]
  absent := get?_eq_none_iff_find?
  lookup w := by
    rw [Scope.plain]
    cases h.get? G asked <;> simp
  undefined e := by
    rw [Scope.plain]
    cases h.get? G asked <;> simp [eq_comm]

/-- What becomes of a heap by a definition of a name in a frame. -/
structure DefinesExactly (h : Heap) (F : FrameId) (key : Key) (v : Value) : Prop where
  /-- From where the definition is seen it is what the name means, however the name is given. -/
  seen : ∀ G (asked : Key), asked.name = key.name → h.Sees G F key →
    (h.define F key v).get? G asked = some v ∧ (h.define F key v).find? G asked = some F
  /-- From everywhere else the name means what it meant, and is found where it was found. -/
  unseen : ∀ G (asked : Key), asked.name = key.name → ¬ h.Sees G F key →
    (h.define F key v).get? G asked = h.get? G asked ∧
      (h.define F key v).find? G asked = h.find? G asked
  /-- So does every other name, from everywhere. -/
  others : ∀ G (asked : Key), asked.name ≠ key.name →
    (h.define F key v).get? G asked = h.get? G asked ∧
      (h.define F key v).find? G asked = h.find? G asked
  /-- The frames lie in each other as they did. -/
  links : ∀ G, (h.define F key v).outer? G = h.outer? G ∧ (h.define F key v).root G = h.root G
  /-- Before and after, the ways to ask agree. -/
  agree : ∀ G asked, Answers h G asked ∧ Answers (h.define F key v) G asked

/-- **A definition is seen exactly where it should be**: from the frames out of which one comes to
its frame without meeting the name before.  A name that is given as a text and the symbol of that
name are the same here, in the definition and in what is asked. -/
theorem definition_visible (h : Heap) (F : FrameId) (key : Key) (v : Value) :
    DefinesExactly h F key v where
  seen G asked hasked hs := by
    rw [hasked, get?_define, find?_define, if_pos ⟨rfl, hs⟩, if_pos ⟨rfl, hs⟩]
    exact ⟨rfl, rfl⟩
  unseen G asked hasked hs := by
    rw [hasked, get?_define, find?_define, if_neg fun hboth => hs hboth.2,
      if_neg fun hboth => hs hboth.2]
    exact ⟨rfl, rfl⟩
  others G asked hasked := by
    rw [get?_define, find?_define, if_neg fun hboth => hasked hboth.1.symm,
      if_neg fun hboth => hasked hboth.1.symm]
    exact ⟨rfl, rfl⟩
  links G := ⟨outer?_define h F G key v, root_define h F G key v⟩
  agree G asked := ⟨answers h G asked, answers _ G asked⟩

end Heap

end SmallLisp
