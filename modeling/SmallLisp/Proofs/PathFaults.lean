import SmallLisp.Proofs.LinkLoops
import SmallLisp.Proofs.PlainFaults

/-! # Why a path leads nowhere

Following a path ends with an error of the file system, or with one of two faults that are none:
a name has the character U+0000 in it, or a link leads back to itself.  Both have a reason that can
be pointed at (`PathFault.Explained`): the character is in one of the names that are followed or in
the target of a link, and from the link that is named one comes to the link again.

A place that a path was found to name has no such character in it (`FileTree.nullFree_canonical`).
So where a specifier's path leads nowhere for want of a name without it, the character is in the
specifier, in the working directory or in a link (`Evaluation.explained_of_modulePath`,
`Evaluation.explained_of_readText`).
-/
namespace SmallLisp

/-- The character U+0000 is in a text. -/
def HasNull (text : String) : Prop := '\x00' ∈ text.toList

namespace FileTree

/-- The target of some link has the character U+0000 in it. -/
def HasNullLink (tree : FileTree) : Prop :=
  ∃ place target, tree.node? place = some (.link target) ∧ HasNull target

/-- No name of a place has the character U+0000 in it. -/
def NullFree (place : Location) : Prop := ∀ name ∈ place, ¬ HasNull name

end FileTree

/-- A fault has its reason in the names that are followed or in a link of the tree: one of them has
the character U+0000 in it, or the link leads back to itself. -/
def PathFault.Explained (tree : FileTree) (names : List String) : PathFault → Prop
  | .file _ => True
  | .null => (∃ name ∈ names, HasNull name) ∨ tree.HasNullLink
  | .loop link => tree.LeadsBack link

theorem PathFault.Explained.mono {tree : FileTree} {names names' : List String} {e : PathFault}
    (h : e.Explained tree names)
    (hnames : ∀ name ∈ names, HasNull name → (∃ name ∈ names', HasNull name) ∨ tree.HasNullLink) :
    e.Explained tree names' := by
  cases e with
  | file e => trivial
  | null =>
    rcases h with ⟨name, hname, hnull⟩ | hlink
    · exact hnames name hname hnull
    · exact .inr hlink
  | loop link => exact h

namespace FileTree

/-! ## Names and links -/

theorem mem_of_mem_pieces {separator c : Char} {s piece : List Char}
    (h : piece ∈ Text.pieces separator s) (hc : c ∈ piece) : c ∈ s := by
  induction s generalizing piece with
  | nil =>
    rw [Text.pieces, List.mem_singleton] at h
    rw [h] at hc
    cases hc
  | cons d rest ih =>
    unfold Text.pieces at h
    split at h
    · rcases List.mem_cons.1 h with rfl | h
      · cases hc
      · exact List.mem_cons_of_mem _ (ih h hc)
    · split at h
      next hnone => exact absurd hnone (Text.pieces_ne_nil separator rest)
      next first more hpieces =>
        rcases List.mem_cons.1 h with rfl | h
        · rcases List.mem_cons.1 hc with rfl | hc
          · exact List.mem_cons_self
          · exact List.mem_cons_of_mem _ (ih (hpieces ▸ List.mem_cons_self) hc)
        · exact List.mem_cons_of_mem _ (ih (hpieces ▸ List.mem_cons_of_mem _ h) hc)

theorem hasNull_of_mem_components {text part : String} (h : part ∈ Path.components text.toList)
    (hnull : HasNull part) : HasNull text := by
  obtain ⟨piece, hpiece, rfl⟩ := List.mem_map.1 h
  rw [HasNull, String.toList_ofList] at hnull
  exact mem_of_mem_pieces (List.mem_filter.1 hpiece).1 hnull

theorem hasNull_of_mem_targetComponents {text part : String} (h : part ∈ targetComponents text)
    (hnull : HasNull part) : HasNull text := by
  obtain ⟨piece, hpiece, rfl⟩ := List.mem_map.1 h
  rw [HasNull, String.toList_ofList] at hnull
  exact mem_of_mem_pieces hpiece hnull

variable {tree : FileTree} {place : Location} {name : String}

/-- A name that is found has no U+0000 in it. -/
theorem not_hasNull_of_lookUp {node : Node} (h : tree.lookUp place name = .ok node) :
    ¬ HasNull name := by
  unfold lookUp at h
  split at h
  · cases h
  next hnull => simpa [HasNull] using hnull

theorem explained_of_lookUp {e : PathFault} (h : tree.lookUp place name = .error e) :
    e.Explained tree [name] := by
  unfold lookUp at h
  split at h
  next hnull =>
    cases h
    exact .inl ⟨name, List.mem_singleton_self name, by simpa [HasNull] using hnull⟩
  · split at h
    · cases h
      trivial
    · split at h
      · cases h
        trivial
      · split at h
        · cases h
          trivial
        · cases h
    · cases h
      trivial

theorem explained_of_lookUpInFull {e : PathFault} (h : tree.lookUpInFull place name = .error e) :
    e.Explained tree [name] := by
  unfold lookUpInFull at h
  split at h
  next hnull =>
    cases h
    exact .inl ⟨name, List.mem_singleton_self name, by simpa [HasNull] using hnull⟩
  · split at h
    · cases h
      trivial
    · exact explained_of_lookUp h

/-! ## Following a path -/

/-- What explains a fault among some of the names that are followed explains it among all. -/
theorem explained_of_subset {names names' : List String} {e : PathFault}
    (h : e.Explained tree names) (hsub : ∀ name ∈ names, name ∈ names') :
    e.Explained tree names' :=
  h.mono fun name hname hnull => .inl ⟨name, hsub name hname, hnull⟩

theorem explained_of_head {rest : List String} {e : PathFault} (h : e.Explained tree [name]) :
    e.Explained tree (name :: rest) :=
  explained_of_subset h fun _ hother => List.mem_singleton.1 hother ▸ List.mem_cons_self

theorem explained_of_tail {rest : List String} {e : PathFault} (h : e.Explained tree rest) :
    e.Explained tree (name :: rest) :=
  explained_of_subset h fun _ => List.mem_cons_of_mem _

/-- To open a file fails for a reason. -/
theorem explained_of_walkFrom {links : Nat} {names : List String} {e : PathFault}
    (h : tree.walkFrom links place names = .error e) : e.Explained tree names := by
  fun_induction walkFrom tree links place names with
  | case1 => cases h
  | case2 links place name rest hstays hnode ih => exact explained_of_tail (ih h)
  | case3 => cases h; trivial
  | case4 => cases h; trivial
  | case5 links place name rest hstays e' hfound =>
    cases h
    exact explained_of_head (explained_of_lookUp hfound)
  | case6 => cases h; trivial
  | case7 place name rest hstays text hfound links ih =>
    refine (ih h).mono fun other hother hnull => ?_
    rcases List.mem_append.1 hother with htarget | hrest
    · exact .inr ⟨_, text, node?_of_lookUp hfound, hasNull_of_mem_targetComponents htarget hnull⟩
    · exact .inl ⟨other, List.mem_cons_of_mem _ hrest, hnull⟩
  | case8 links place name rest hstays node hnode hfound ih => exact explained_of_tail (ih h)

theorem explained_of_loopFault (h : tree.LeadsBack (place ++ [name])) :
    (tree.loopFault place name).Explained tree [name] := by
  unfold loopFault
  split
  · exact h
  · exact h
  next e _ hwalk => exact explained_of_walkFrom hwalk

/-- To find the place that names lead to fails for a reason. -/
theorem explained_of_canonicalFrom {budget : Nat} {following : List Location}
    {names : List String} {e : PathFault} (hf : tree.Following budget following place names)
    (h : tree.canonicalFrom budget following place names = .error e) :
    e.Explained tree names := by
  fun_induction canonicalFrom tree budget following place names with
  | case1 => cases h
  | case2 budget following place rest ih =>
    exact explained_of_tail (ih (hf.go_on (.single .up)) h)
  | case3 budget following place name rest hup e' hfound =>
    cases h
    exact explained_of_head (explained_of_lookUpInFull hfound)
  | case4 budget following place name rest hup text hfound link hmet =>
    cases h
    exact explained_of_head (explained_of_loopFault (hf.leadsBack (List.contains_iff_mem.1 hmet)))
  | case5 following place name rest hup text hfound link hnew =>
    have hlink := node?_of_lookUp (lookUp_of_lookUpInFull hfound)
    exact absurd (hf.budget_pos hlink (mt List.contains_iff_mem.2 hnew)) (Nat.lt_irrefl 0)
  | case6 following place name rest hup text hfound link target hnew budget e' hfault ih =>
    cases h
    have hfound := lookUp_of_lookUpInFull hfound
    have hinside := hf.enter hup hfound (mt List.contains_iff_mem.2 hnew)
    exact (ih hinside hfault).mono fun part hpart hnull =>
      .inr ⟨_, text, node?_of_lookUp hfound, hasNull_of_mem_components hpart hnull⟩
  | case7 following place name rest hup text hfound link target hnew budget there hthere _ ih =>
    have hbehind : Relation.ReflTransGen tree.Follows (place, name :: rest) (there, rest) :=
      Follows.through_link hup (lookUp_of_lookUpInFull hfound) (follows_of_canonicalFrom hthere)
    exact explained_of_tail (ih (hf.go_on hbehind) h)
  | case8 budget following place name rest hup node hnode hfound ih =>
    have hplain : tree.Follows (place, name :: rest) (place ++ [name], rest) :=
      .plain hup (lookUp_of_lookUpInFull hfound) hnode
    exact explained_of_tail (ih (hf.go_on (.single hplain)) h)

/-- To find the place that a path names fails for a reason. -/
theorem explained_of_canonical {path : Path} {e : PathFault}
    (h : tree.canonical place path = .error e) : e.Explained tree path.parts :=
  explained_of_canonicalFrom (.start tree _ _) h

/-- The place that a path names from the root on has no U+0000 in it. -/
theorem nullFree_canonical {path : Path} {there : Location}
    (h : tree.canonical [] path = .ok there) : NullFree there := by
  refine canonical_induction (fun _ hname => absurd hname List.not_mem_nil) (fun place hplace => ?_)
    (fun place name node hplace _ hfound _ => ?_) h
  · exact fun name hname => hplace name ((List.dropLast_sublist place).subset hname)
  · intro other hother
    rcases List.mem_append.1 hother with hother | hother
    · exact hplace other hother
    · rw [List.mem_singleton.1 hother]
      exact not_hasNull_of_lookUp hfound

/-! ## Reading a file -/

theorem subset_of_climb {lost : Nat} {names left : List String} {there : Location}
    (h : WorkingDirectory.climb place lost names = .ok (there, left)) :
    ∀ name ∈ left, name ∈ names := by
  fun_induction WorkingDirectory.climb place lost names with
  | case1 =>
    cases h
    exact fun _ => id
  | case2 => cases h
  | case3 lost rest ih => exact fun name hname => List.mem_cons_of_mem _ (ih h name hname)
  | case4 => cases h

theorem explained_of_climb {lost : Nat} {names : List String} {e : PathFault}
    (h : WorkingDirectory.climb place lost names = .error e) : e.Explained tree names := by
  fun_induction WorkingDirectory.climb place lost names with
  | case1 => cases h
  | case2 => cases h; trivial
  | case3 lost rest ih => exact explained_of_tail (ih h)
  | case4 => cases h; trivial

theorem explained_of_walk {here : WorkingDirectory} {path : Path} {e : PathFault}
    (h : tree.walk here path = .error e) : e.Explained tree path.parts := by
  have hstart : ∀ e, here.start path = .error e → e.Explained tree path.parts := by
    intro e h
    unfold WorkingDirectory.start at h
    split at h
    next hnull =>
      cases h
      obtain ⟨part, hpart, hnull⟩ := List.any_eq_true.1 hnull
      exact .inl ⟨part, hpart, by simpa [HasNull] using hnull⟩
    · split at h
      · cases h
        trivial
      · split at h
        · cases h
        · exact explained_of_climb h
  have hnames : ∀ there left, here.start path = .ok (there, left) →
      ∀ name ∈ left, name ∈ path.parts := by
    intro there left h
    unfold WorkingDirectory.start at h
    split at h
    · cases h
    · split at h
      · cases h
      · split at h
        · cases h
          exact fun _ => id
        · exact subset_of_climb h
  rw [walk] at h
  rcases hs : here.start path with e' | ⟨there, left⟩
  · rw [hs] at h
    cases h
    exact hstart _ hs
  · rw [hs] at h
    exact explained_of_subset (explained_of_walkFrom h) (hnames there left hs)

/-- To read the file that a path leads to fails for a reason. -/
theorem explained_of_readText {here : WorkingDirectory} {path : Path} {e : PathFault}
    (h : tree.readText here path = .error e) : e.Explained tree path.parts := by
  rw [readText, read] at h
  rcases hw : tree.walk here path with e' | place
  · rw [hw] at h
    cases h
    exact explained_of_walk hw
  · rw [hw] at h
    simp only [bind, Except.bind] at h
    split at h
    next hbytes =>
      cases h
      split at hbytes
      · cases hbytes
      · cases hbytes
        trivial
      · cases hbytes
        trivial
    · split at h
      · cases h
      · cases h
        trivial

end FileTree

/-! ## The file of a specifier -/

/-- A fault that is no error of the language: a path leads nowhere. -/
def Fault.isOfPath : Fault → Bool
  | .nullInPath | .linkLoop _ => true
  | .lisp _ | .tooDeep => false

/-- A fault of a path has its reason in a specifier, in the working directory or in a link: one of
them has the character U+0000 in it, or the link leads back to itself. -/
def Fault.Explained (setting : Setting) (specifier : String) : Fault → Prop
  | .nullInPath =>
    HasNull specifier ∨ (∃ name ∈ setting.here.place, HasNull name) ∨ setting.files.HasNullLink
  | .linkLoop path => ∃ place, path = .ofLocation place ∧ setting.files.LeadsBack place
  | .lisp _ | .tooDeep => True

namespace Evaluation

variable {setting : Setting} {specifier : String}

theorem hasNull_of_candidatePath {path : Path} (h : candidatePath setting specifier = .ok path) :
    ∀ part ∈ path.parts, HasNull part →
      HasNull specifier ∨ ∃ name ∈ setting.here.place, HasNull name := by
  -- the suffix has no such character
  have hsuffix : HasNull (specifier ++ moduleSuffix) → HasNull specifier := by
    intro hnull
    rw [HasNull, String.toList_append] at hnull
    exact (List.mem_append.1 hnull).resolve_right (by decide)
  obtain ⟨text, htext, hpath⟩ : ∃ text, (HasNull text → HasNull specifier) ∧
      (path = .ofString text ∨
        path = (Path.ofLocation setting.here.place).join (.ofString text)) := by
    unfold candidatePath at h
    refine ⟨if moduleSuffix.toList.isSuffixOf specifier.toList then specifier
      else specifier ++ moduleSuffix, ?_, ?_⟩
    · split
      · exact id
      · exact hsuffix
    · simp only [WorkingDirectory.place?] at h
      split at h
      · cases h
        exact .inl rfl
      next here _ hhere =>
        cases h
        split at hhere
        · cases hhere
          exact .inr rfl
        · cases hhere
      · cases h
  have hparts : ∀ part ∈ (Path.ofString text).parts, HasNull part → HasNull specifier :=
    fun part hpart hnull => htext (FileTree.hasNull_of_mem_components hpart hnull)
  intro part hpart hnull
  rcases hpath with rfl | rfl
  · exact .inl (hparts part hpart hnull)
  · unfold Path.join at hpart
    split at hpart
    · exact .inl (hparts part hpart hnull)
    · rcases List.mem_append.1 hpart with hhere | hpart
      · exact .inr ⟨part, hhere, hnull⟩
      · exact .inl (hparts part hpart hnull)

theorem explained_of_pathFault {names : List String} {path : Path} {e : PathFault}
    (h : e.Explained setting.files names)
    (hnames : ∀ name ∈ names, HasNull name →
      HasNull specifier ∨ ∃ name ∈ setting.here.place, HasNull name) :
    (pathFault path e).Explained setting specifier := by
  cases e with
  | file e => trivial
  | null =>
    rcases h with ⟨name, hname, hnull⟩ | hlink
    · exact (hnames name hname hnull).imp_right .inl
    · exact .inr (.inr hlink)
  | loop link => exact ⟨link, rfl, h⟩

/-- **Where a specifier leads nowhere there is a reason for it.** -/
theorem explained_of_modulePath {f : Fault} (h : modulePath setting specifier = .error f) :
    f.Explained setting specifier := by
  rcases cases_of_modulePath h with hplain | ⟨path, e, hpath, hfault, rfl⟩
  · cases f with
    | nullInPath => cases hplain
    | linkLoop path => cases hplain
    | _ => trivial
  · exact explained_of_pathFault (FileTree.explained_of_canonical hfault)
      (hasNull_of_candidatePath hpath)

/-- The file of a module cannot be read for a reason, too: the path that was found has no such
character in it. -/
theorem explained_of_readText {path : Path} {e : PathFault}
    (h : modulePath setting specifier = .ok path)
    (hread : setting.files.readText setting.here path = .error e) :
    (pathFault path e).Explained setting specifier := by
  refine explained_of_pathFault (FileTree.explained_of_readText hread) fun name hname hnull => ?_
  rw [modulePath] at h
  rcases hc : candidatePath setting specifier with f | candidate
  · rw [hc] at h
    cases h
  · rw [hc] at h
    simp only [bind, Except.bind] at h
    split at h
    next place hplace =>
      cases h
      exact absurd hnull (FileTree.nullFree_canonical hplace name hname)
    · cases h
    · cases h

end Evaluation

end SmallLisp
