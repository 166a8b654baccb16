import Mathlib.Data.List.Nodup
import Mathlib.Data.List.Perm.Subperm
import Mathlib.Logic.Relation
import SmallLisp.FileTree.Canonical

/-! # Links that lead back to themselves

The names of a path are followed one at a time, and a link is replaced by the names of its target
(`FileTree.Follows`).  What is true of the root and stays true as plain names are followed is true
of every place that a path names, whatever links are on the way (`FileTree.canonical_induction`).

A link leads back to itself if from the link alone one comes to it again, with whatever names behind
it (`FileTree.LeadsBack`).  Only a link can do so (`FileTree.LeadsBack.exists_link`).  Its target is
followed anew each time, so that following it never ends, and it names no place
(`FileTree.LeadsBack.canonicalFrom_ne_ok`).

Finding the place that a path names keeps the links that are being followed, each of which leads to
where it is (`FileTree.Following`).  So a link that is met again while it is being followed leads
back to itself (`FileTree.Following.leadsBack`).  And as many links can be followed inside one
another as there are, so that one which is met for the first time never comes too late
(`FileTree.Following.budget_pos`).
-/
namespace SmallLisp.FileTree

/-- The next name is followed: `..` takes off the last name of the place, the target of a link takes
the place of its name, and any other name that is found is put at the end of the place. -/
inductive Follows (tree : FileTree) : Location × List String → Location × List String → Prop
  | up {place : Location} {rest : List String} :
      Follows tree (place, ".." :: rest) (place.dropLast, rest)
  | link {place : Location} {name text : String} {rest : List String} (hname : name ≠ "..")
      (hfound : tree.lookUp place name = .ok (.link text)) :
      Follows tree (place, name :: rest)
        (origin place (.ofString text), (Path.ofString text).parts ++ rest)
  | plain {place : Location} {name : String} {node : Node} {rest : List String}
      (hname : name ≠ "..") (hfound : tree.lookUp place name = .ok node)
      (hnode : ∀ text, node ≠ .link text) :
      Follows tree (place, name :: rest) (place ++ [name], rest)

/-- A link leads back to itself: from the link alone one comes to it again. -/
def LeadsBack (tree : FileTree) (link : Location) : Prop :=
  ∃ place name rest, link = place ++ [name] ∧
    Relation.TransGen tree.Follows (place, [name]) (place, name :: rest)

variable {tree : FileTree} {place there : Location} {name : String} {names rest : List String}
  {budget : Nat} {following : List Location}

/-! ## Following names -/

namespace Follows

variable {c d : Location × List String}

/-- The names behind those that are followed make no difference. -/
theorem append (h : tree.Follows c d) (more : List String) :
    tree.Follows (c.1, c.2 ++ more) (d.1, d.2 ++ more) := by
  cases h with
  | up => exact .up
  | link hname hfound =>
    rw [List.append_assoc]
    exact .link hname hfound
  | plain hname hfound hnode => exact .plain hname hfound hnode

theorem append_transGen (h : Relation.TransGen tree.Follows c d) (more : List String) :
    Relation.TransGen tree.Follows (c.1, c.2 ++ more) (d.1, d.2 ++ more) :=
  h.lift (fun c => (c.1, c.2 ++ more)) fun _ _ hstep => hstep.append more

theorem append_reflTransGen (h : Relation.ReflTransGen tree.Follows c d) (more : List String) :
    Relation.ReflTransGen tree.Follows (c.1, c.2 ++ more) (d.1, d.2 ++ more) :=
  h.lift (fun c => (c.1, c.2 ++ more)) fun _ _ hstep => hstep.append more

/-- Behind a link one goes on where its target leads. -/
theorem through_link {text : String} (hname : name ≠ "..")
    (hfound : tree.lookUp place name = .ok (.link text))
    (htarget : Relation.ReflTransGen tree.Follows
      (origin place (.ofString text), (Path.ofString text).parts) (there, [])) :
    Relation.ReflTransGen tree.Follows (place, name :: rest) (there, rest) :=
  .head (.link hname hfound) (append_reflTransGen htarget rest)

theorem not_of_nil : ¬ tree.Follows (place, []) d := nofun

/-- There is only one way to follow a name. -/
theorem unique {d' : Location × List String} (h : tree.Follows c d) (h' : tree.Follows c d') :
    d = d' := by
  cases h with
  | up =>
    cases h' with
    | up => rfl
    | link hname => exact absurd rfl hname
    | plain hname => exact absurd rfl hname
  | link hname hfound =>
    cases h' with
    | up => exact absurd rfl hname
    | link _ hfound' =>
      rw [hfound] at hfound'
      cases hfound'
      rfl
    | plain _ hfound' hnode =>
      rw [hfound] at hfound'
      cases hfound'
      exact absurd rfl (hnode _)
  | plain hname hfound hnode =>
    cases h' with
    | up => exact absurd rfl hname
    | link _ hfound' =>
      rw [hfound] at hfound'
      cases hfound'
      exact absurd rfl (hnode _)
    | plain => rfl

/-- From where following ends there is no way on for ever. -/
theorem acc_of_ends (h : Relation.ReflTransGen tree.Follows c (there, [])) :
    Acc (Function.swap tree.Follows) c := by
  induction h using Relation.ReflTransGen.head_induction_on with
  | refl => exact ⟨_, fun d hd => absurd hd not_of_nil⟩
  | head hstep _ ih => exact ⟨_, fun d hd => hstep.unique hd ▸ ih⟩

end Follows

/-- To find the place that a path names is to follow its names to the end. -/
theorem follows_of_canonicalFrom
    (h : tree.canonicalFrom budget following place names = .ok there) :
    Relation.ReflTransGen tree.Follows (place, names) (there, []) := by
  fun_induction canonicalFrom tree budget following place names generalizing there with
  | case1 =>
    cases h
    exact .refl
  | case2 budget following place rest ih => exact .head .up (ih h)
  | case3 => cases h
  | case4 => cases h
  | case5 => cases h
  | case6 => cases h
  | case7 following place name rest hup text hfound link target hnew budget mid hmid ih₁ =>
    rename_i ih₂
    exact (Follows.through_link hup (lookUp_of_lookUpInFull hfound) (ih₁ hmid)).trans (ih₂ h)
  | case8 budget following place name rest hup node hnode hfound ih =>
    exact .head (.plain hup (lookUp_of_lookUpInFull hfound) hnode) (ih h)

/-- **What holds of the root, and is kept on the way up and to what is found, holds of each place that
a path names.** -/
theorem canonical_induction {holds : Location → Prop} {path : Path} (hroot : holds [])
    (hup : ∀ place, holds place → holds place.dropLast)
    (hplain : ∀ place name node, holds place → name ≠ ".." → tree.lookUp place name = .ok node →
      (∀ text, node ≠ .link text) → holds (place ++ [name]))
    (h : tree.canonical [] path = .ok there) : holds there := by
  have horigin (place : Location) (path : Path) (hplace : holds place) :
      holds (origin place path) := by
    unfold origin
    split
    · exact hroot
    · exact hplace
  have hstep : ∀ c d, tree.Follows c d → holds c.1 → holds d.1 := by
    intro c d hcd hc
    cases hcd with
    | up => exact hup _ hc
    | link => exact horigin _ _ hc
    | plain hname hfound hnode => exact hplain _ _ _ hc hname hfound hnode
  have hrun : ∀ c d, Relation.ReflTransGen tree.Follows c d → holds c.1 → holds d.1 := by
    intro c d hcd hc
    induction hcd with
    | refl => exact hc
    | tail _ hlast ih => exact hstep _ _ hlast ih
  exact hrun _ _ (follows_of_canonicalFrom h) (horigin _ _ hroot)

namespace LeadsBack

/-- What leads back to itself is a link. -/
theorem exists_link {link : Location} (h : tree.LeadsBack link) :
    ∃ text, tree.node? link = some (.link text) := by
  obtain ⟨place, name, rest, rfl, hback⟩ := h
  obtain ⟨c, hstep, hrest⟩ := Relation.TransGen.head'_iff.1 hback
  -- without a link no name is left to be followed
  have hstuck {place' : Location} :
      ¬ Relation.ReflTransGen tree.Follows (place', []) (place, name :: rest) := by
    intro h
    rcases h.cases_head with heq | ⟨d, hd, -⟩
    · cases heq
    · exact Follows.not_of_nil hd
  cases hstep with
  | up => exact absurd hrest hstuck
  | link hname hfound => exact ⟨_, node?_of_lookUp hfound⟩
  | plain => exact absurd hrest hstuck

/-- **A link that leads back to itself names no place.** -/
theorem canonicalFrom_ne_ok (h : tree.LeadsBack (place ++ [name])) :
    tree.canonicalFrom budget following place [name] ≠ .ok there := by
  obtain ⟨place', name', rest, heq, hback⟩ := h
  obtain ⟨rfl, hsame⟩ := List.append_inj' heq rfl
  cases hsame
  intro hthere
  have hnever : ∀ c, Acc (Relation.TransGen (Function.swap tree.Follows)) c →
      ∀ rest, c ≠ (place, name :: rest) := by
    intro c hc
    induction hc with
    | intro c _ ih =>
      rintro more rfl
      exact ih _ (Relation.transGen_swap.2 (Follows.append_transGen hback more)) _ rfl
  exact hnever _ (Follows.acc_of_ends (follows_of_canonicalFrom hthere)).transGen _ rfl

end LeadsBack

/-! ## The links that are being followed -/

/-- The links that are being followed at the moment: they are different links of the tree, each
leads to the names that are followed now, and as many more may be followed as the tree has. -/
structure Following (tree : FileTree) (budget : Nat) (following : List Location)
    (place : Location) (names : List String) : Prop where
  nodup : following.Nodup
  links : ∀ link ∈ following, ∃ text, tree.node? link = some (.link text)
  count : following.length + budget = tree.linkCount
  leads : ∀ link ∈ following, ∃ parent name more, link = parent ++ [name] ∧
    Relation.TransGen tree.Follows (parent, [name]) (place, names ++ more)

namespace Following

theorem start (tree : FileTree) (place : Location) (names : List String) :
    tree.Following tree.linkCount [] place names :=
  ⟨.nil, nofun, Nat.zero_add _, nofun⟩

/-- Names are followed on. -/
theorem go_on {there : Location} {left : List String}
    (h : tree.Following budget following place names)
    (hgo : Relation.ReflTransGen tree.Follows (place, names) (there, left)) :
    tree.Following budget following there left := by
  refine { h with leads := fun link hlink => ?_ }
  obtain ⟨parent, name, more, heq, hleads⟩ := h.leads link hlink
  exact ⟨parent, name, more, heq, hleads.trans_left (Follows.append_reflTransGen hgo more)⟩

/-- One more link is followed. -/
theorem enter {text : String}
    (h : tree.Following (budget + 1) following place (name :: rest)) (hname : name ≠ "..")
    (hfound : tree.lookUp place name = .ok (.link text)) (hnew : place ++ [name] ∉ following) :
    tree.Following budget ((place ++ [name]) :: following) (origin place (.ofString text))
      (Path.ofString text).parts where
  nodup := List.nodup_cons.2 ⟨hnew, h.nodup⟩
  links := List.forall_mem_cons.2 ⟨⟨text, node?_of_lookUp hfound⟩, h.links⟩
  count := by
    rw [List.length_cons, Nat.add_assoc, Nat.add_comm 1]
    exact h.count
  leads := by
    refine List.forall_mem_cons.2 ⟨⟨place, name, [], rfl, .single (.link hname hfound)⟩, ?_⟩
    intro link hlink
    obtain ⟨parent, name', more, heq, hleads⟩ := h.leads link hlink
    exact ⟨parent, name', rest ++ more, heq, hleads.tail (.link hname hfound)⟩

/-- **A link that is met while it is being followed leads back to itself.** -/
theorem leadsBack (h : tree.Following budget following place (name :: rest))
    (hmet : place ++ [name] ∈ following) : tree.LeadsBack (place ++ [name]) := by
  obtain ⟨parent, name', more, heq, hleads⟩ := h.leads _ hmet
  obtain ⟨rfl, hnames⟩ := List.append_inj' heq rfl
  cases hnames
  exact ⟨place, name, rest ++ more, rfl, hleads⟩

/-- **A link that is not being followed may be followed.** -/
theorem budget_pos {text : String} (h : tree.Following budget following place names)
    {link : Location} (hlink : tree.node? link = some (.link text)) (hnew : link ∉ following) :
    0 < budget := by
  have hlinks : ∀ other ∈ link :: following, ∃ text, tree.node? other = some (.link text) :=
    List.forall_mem_cons.2 ⟨⟨text, hlink⟩, h.links⟩
  have hroom : (link :: following).length ≤ tree.linkCount := by
    rw [linkCount, List.countP_eq_length_filter, ← List.length_map Prod.fst]
    refine ((List.nodup_cons.2 ⟨hnew, h.nodup⟩).subperm fun other hother => ?_).length_le
    obtain ⟨text, hnode⟩ := hlinks other hother
    rcases mem_entries_of_node? hnode with rfl | hmem
    · cases hnode
    · exact List.mem_map.2 ⟨_, List.mem_filter.2 ⟨hmem, rfl⟩, rfl⟩
  rw [← h.count, List.length_cons] at hroom
  exact Nat.le_of_add_le_add_left hroom

end Following

end SmallLisp.FileTree
