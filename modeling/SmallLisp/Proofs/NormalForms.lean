import SmallLisp.Proofs.CheckedReading
import SmallLisp.Proofs.Code

/-! # Normal forms of what is read

What the reader makes of a text is printed to a text of its own, the normal form, and reading and
printing this gives it again.  The values that the reader makes are literals, strings, symbols that
are single tokens, lists of such values, and numbers that are finite or infinite
(`Value.Produced`): no numeral denotes anything else (`Number.isFinite_or_infinite`).

Infinity is the exception.  A numeral may be so large that the nearest number is infinite, but there
is no numeral for infinity, so it is printed as a word, and that is read as a symbol
(`Value.readBack`).  All else is read back as a value that agrees, and the text is the same in any
case (`Value.normal_forms`).
-/
namespace SmallLisp

/-! ## What numerals denote -/

namespace Number

/-- The number that is larger than all others. -/
def infinity : Float :=
  Float.ofBits (UInt64.ofNat infinityBits)

/-- A number that is larger than all finite ones, in one direction or the other. -/
def IsInfinite (x : Float) : Prop :=
  x = infinity ∨ x = -infinity

/-- **A numeral denotes a finite number or an infinite one.** -/
theorem isFinite_or_infinite (n : Numeral) : IsFinite n.toFloat ∨ IsInfinite n.toFloat := by
  obtain ⟨bits, hsigned, hnearest⟩ := n.toFloat_nearest
  have hsize := sizeBits_signed n.negative hnearest.le_infinityBits
  rw [hsigned]
  rcases hnearest.le_infinityBits.lt_or_eq with hlt | rfl
  · exact .inl (hsize.trans_lt hlt)
  · cases n.negative
    · exact .inr (.inl rfl)
    · exact .inr (.inr rfl)

theorem not_isFinite_of_isInfinite {x : Float} (h : IsInfinite x) : ¬ IsFinite x := by
  rcases h with rfl | rfl
  · decide +kernel
  · decide +kernel

/-- Infinity is written as a word. -/
theorem display_of_isInfinite {x : Float} (h : IsInfinite x) :
    display x = "inf".toList ∨ display x = "-inf".toList := by
  rcases h with rfl | rfl
  · exact .inl (by decide +kernel)
  · exact .inr (by decide +kernel)

theorem isFinite_unsignedZero {x : Float} (h : IsFinite x) : IsFinite (unsignedZero x) := by
  unfold unsignedZero
  split
  · decide +kernel
  · exact h

theorem unsignedZero_unsignedZero (x : Float) : unsignedZero (unsignedZero x) = unsignedZero x := by
  by_cases hzero : x.toBits.toNat % 2 ^ 63 = 0
  · rw [unsignedZero.eq_1 x, if_pos hzero]
    exact if_pos (by decide +kernel)
  · rw [unsignedZero.eq_1 x, if_neg hzero, unsignedZero, if_neg hzero]

/-- The sign of zero is not shown. -/
theorem display_unsignedZero (x : Float) : display (unsignedZero x) = display x := by
  unfold unsignedZero
  split
  next hzero =>
    rcases eq_zero_or hzero with rfl | rfl
    · rfl
    · decide +kernel
  next => rfl

end Number

namespace Value

open Grammar Lexeme

/-! ## What the reader makes -/

/-- Values that are read from a text. -/
inductive Produced : Value → Prop
  | nil : Produced nil
  | bool (b : Bool) : Produced (bool b)
  | num {x : Float} (h : Number.IsFinite x ∨ Number.IsInfinite x) : Produced (num x)
  | str (s : String) : Produced (str s)
  | sym {name : String} (hname : IsAtom name.toList)
      (hatom : Reader.atom name.toList = sym name) : Produced (sym name)
  | list {items : List Value} (h : ∀ v ∈ items, Produced v) : Produced (list items)

theorem produced_atom {text : List Char} (h : IsAtom text) : Produced (Reader.atom text) := by
  unfold Reader.atom
  rcases hread : Number.Numeral.read? text with _ | x
  · rcases hliteral : Reader.literal? text with _ | v
    · have htext : (String.ofList text).toList = text := String.toList_ofList
      refine .sym (by rwa [htext]) ?_
      rw [htext, Reader.atom, hread, hliteral]
      rfl
    · unfold Reader.literal? at hliteral
      split at hliteral
      · cases hliteral
        exact .bool true
      split at hliteral
      · cases hliteral
        exact .bool false
      split at hliteral
      · cases hliteral
        exact .nil
      · cases hliteral
  · obtain ⟨n, -, rfl⟩ := Option.map_eq_some_iff.1 hread
    exact .num (Number.isFinite_or_infinite n)

theorem produced_quote : Produced (sym "quote") :=
  .sym ⟨by decide, List.all_eq_true.1 rfl⟩ rfl

theorem values_eq_map (trees : List Tree) : values trees = trees.map Tree.value := by
  induction trees with
  | nil => rfl
  | cons t trees ih => rw [values, ih, List.map_cons]

theorem lexemes_eq_flatMap (trees : List Tree) : lexemes trees = trees.flatMap Tree.lexemes := by
  induction trees with
  | nil => rfl
  | cons t trees ih => rw [lexemes, ih, List.flatMap_cons]

/-- The value of a derivation is produced, if all atoms in the derivation are atoms. -/
theorem produced_value (t : Tree) (h : ∀ text, Lexeme.atom text ∈ t.lexemes → IsAtom text) :
    Produced t.value := by
  induction t using Tree.induction_on with
  | atom text => exact produced_atom (h text List.mem_cons_self)
  | string body s hs => exact .str _
  | quote inner ih =>
    have hinner := ih fun text ht => h text (List.mem_cons_of_mem _ ht)
    exact .list (List.forall_mem_cons.2 ⟨produced_quote, List.forall_mem_singleton.2 hinner⟩)
  | list items ih =>
    rw [Tree.value, values_eq_map]
    refine .list fun v hv => ?_
    obtain ⟨t, ht, rfl⟩ := List.mem_map.1 hv
    refine ih t ht fun text htext => h text ?_
    rw [Tree.lexemes, lexemes_eq_flatMap]
    exact List.mem_cons_of_mem _ (List.mem_append_left _ (List.mem_flatMap.2 ⟨t, ht, htext⟩))

theorem isAtom_of_mem_meaningful {s : List Char} {t : Token} (h : t ∈ Token.meaningful s)
    (hkind : t.kind = .atom) : IsAtom t.text := by
  obtain ⟨before, c, rest, after, -, -, hsplit⟩ :=
    Reader.exists_split_of_mem_row (List.mem_of_mem_filter h)
  have hnonempty := Token.split_text_ne_nil c rest
  rw [hsplit] at hnonempty
  exact ⟨hnonempty, (Reader.taken_of_mem_meaningful h).atom hkind⟩

/-- **All that is read from a text is of this kind.** -/
theorem produced_of_parseAll {s : List Char} {es : List Value} (h : Reader.parseAll s = .ok es) :
    ∀ e ∈ es, Produced e := by
  obtain ⟨trees, hlexemes, rfl⟩ := Reader.exists_trees_of_parseAll h
  intro e he
  rw [values_eq_map] at he
  obtain ⟨t, ht, rfl⟩ := List.mem_map.1 he
  refine produced_value t fun text htext => ?_
  have hmem : Lexeme.atom text ∈ Lexeme.ofText s := by
    rw [← hlexemes, lexemes_eq_flatMap]
    exact List.mem_flatMap.2 ⟨t, ht, htext⟩
  obtain ⟨token, htoken, hatom⟩ := List.mem_map.1 hmem
  have hatomic := isAtom_of_mem_meaningful htoken (congrArg Lexeme.kind hatom)
  rwa [show token.text = text from congrArg Lexeme.text hatom] at hatomic

/-! ## What is read back -/

mutual

/-- What is read back of the text of a value: the value itself but for the signs of zeros, and
symbols in the place of infinite numbers. -/
def readBack : Value → Value
  | num x =>
    if Number.IsFinite x then num (Number.unsignedZero x)
    else sym (String.ofList (Number.display x))
  | list items => list (readBackAll items)
  | v => v

/-- What is read back of the texts of the values of a list. -/
def readBackAll : List Value → List Value
  | [] => []
  | v :: rest => readBack v :: readBackAll rest

end

theorem readBackAll_eq_map (vs : List Value) : readBackAll vs = vs.map readBack := by
  induction vs with
  | nil => rfl
  | cons v vs ih => rw [readBackAll, ih, List.map_cons]

/-- Every number in a value is finite. -/
def IsFinite (v : Value) : Prop :=
  ∀ x : Float, Part (num x) v → Number.IsFinite x

theorem nestingOfAll_map {f : Value → Value} {vs : List Value}
    (h : ∀ v ∈ vs, (f v).nesting = v.nesting) : nestingOfAll (vs.map f) = nestingOfAll vs := by
  induction vs with
  | nil => rfl
  | cons v vs ih =>
    rw [List.map_cons, nestingOfAll, nestingOfAll, h v List.mem_cons_self,
      ih fun u hu => h u (List.mem_cons_of_mem _ hu)]

theorem agreeAll_map_iff (f : Value → Value) (vs : List Value) :
    agreeAll (vs.map f) vs = true ↔ ∀ v ∈ vs, (f v).agrees v = true := by
  induction vs with
  | nil => exact ⟨nofun, fun _ => rfl⟩
  | cons v vs ih => rw [List.map_cons, agreeAll, Bool.and_eq_true, ih, List.forall_mem_cons]

theorem sym_of_isInfinite {x : Float} (h : Number.IsInfinite x) :
    (sym (String.ofList (Number.display x))).Readable := by
  rcases Number.display_of_isInfinite h with hx | hx
  · rw [hx]
    exact .sym (IsAtom.row ⟨by decide, List.all_eq_true.1 rfl⟩) rfl
  · rw [hx]
    exact .sym (IsAtom.row ⟨by decide, List.all_eq_true.1 rfl⟩) rfl

namespace Produced

/-- What is read back can be read once more. -/
theorem readable_readBack {v : Value} (hv : v.Produced) : v.readBack.Readable := by
  induction hv with
  | nil => exact .nil
  | bool b => exact .bool b
  | @num x hx =>
    rw [readBack]
    split
    next hfinite => exact .num (Number.isFinite_unsignedZero hfinite)
    next hfinite => exact sym_of_isInfinite (hx.resolve_left hfinite)
  | str s => exact .str s
  | sym hname hatom => exact .sym hname.row hatom
  | list _ ih =>
    rw [readBack, readBackAll_eq_map]
    exact .list (List.forall_mem_map.2 ih)

/-- **What is read back is written in the same way.** -/
theorem write_readBack {v : Value} (hv : v.Produced) :
    write stringLiteral v.readBack = write stringLiteral v := by
  induction hv with
  | @num x hx =>
    rw [readBack]
    split
    next => exact Number.display_unsignedZero x
    next => exact String.toList_ofList
  | list _ ih =>
    have htexts := List.map_congr_left ih
    rw [readBack, write_list, write_list, writeAll_eq_map, writeAll_eq_map, readBackAll_eq_map,
      List.map_map, ← htexts]
    rfl
  | _ => rfl

theorem unsignedZeros_readBack {v : Value} (hv : v.Produced) :
    v.readBack.unsignedZeros = v.readBack := by
  induction hv with
  | @num x hx =>
    rw [readBack]
    split
    next => exact congrArg Value.num (Number.unsignedZero_unsignedZero x)
    next => rfl
  | list _ ih =>
    rw [readBack, readBackAll_eq_map, unsignedZeros, unsignedZerosOfAll_eq_map, List.map_map]
    exact congrArg Value.list (List.map_congr_left ih)
  | _ => rfl

theorem nesting_readBack {v : Value} (hv : v.Produced) : v.readBack.nesting = v.nesting := by
  induction hv with
  | @num x hx =>
    rw [readBack]
    split <;> rfl
  | list _ ih => rw [readBack, readBackAll_eq_map, nesting, nesting, nestingOfAll_map ih]
  | _ => rfl

/-- **What is read back agrees with the value if and only if all numbers in it are finite.** -/
theorem agrees_readBack_iff {v : Value} (hv : v.Produced) :
    v.readBack.agrees v = true ↔ v.IsFinite := by
  induction hv with
  | nil => exact ⟨fun _ => nofun, fun _ => rfl⟩
  | bool b => exact ⟨fun _ => nofun, fun _ => beq_self_eq_true b⟩
  | str s => exact ⟨fun _ => nofun, fun _ => beq_self_eq_true s⟩
  | @sym name _ _ => exact ⟨fun _ => nofun, fun _ => beq_self_eq_true name⟩
  | @num x hx =>
    rw [readBack]
    split
    next hfinite =>
      refine ⟨fun _ y hy => ?_, fun _ => (Readable.num hfinite).agrees_unsignedZeros⟩
      cases hy
      exact hfinite
    next hfinite => exact ⟨nofun, fun h => absurd (h x .self) hfinite⟩
  | @list items _ ih =>
    have hitems : (Value.list items).IsFinite ↔ ∀ v ∈ items, v.IsFinite := by
      constructor
      · intro h v hv x hx
        exact h x (.item hv hx)
      · intro h x hx
        rcases part_list_iff.1 hx with hlist | ⟨v, hv, hpart⟩
        · cases hlist
        · exact h v hv x hpart
    rw [readBack, readBackAll_eq_map, agrees, agreeAll_map_iff, hitems]
    exact forall₂_congr ih

/-- No number that is read is anything but finite or infinite. -/
theorem finite_or_infinite {v : Value} (hv : v.Produced) {x : Float} (hx : Part (.num x) v) :
    Number.IsFinite x ∨ Number.IsInfinite x := by
  induction hv with
  | num h =>
    cases hx
    exact h
  | list _ ih =>
    rcases part_list_iff.1 hx with hlist | ⟨v, hv, hpart⟩
    · cases hlist
    · exact ih v hv hpart
  | _ => cases hx

end Produced

/-- **Printing is a normal form of what is read.**  Whatever is read of a text is printed wherever
there is room for its lists, and always to the same text; of this text one expression is read and
nothing remains, and this is printed to the same text again.  It agrees with what was read at first
if and only if no number in that is infinite: the text of an infinite number is read as a symbol. -/
theorem normal_forms (s : List Char) (es : List Value) (h : Reader.parseAll s = .ok es) :
    ∀ e ∈ es,
      (∀ limit, e.nesting ≤ limit → e.writeReadable limit = .ok e.readable) ∧
      (∀ limit, limit < e.nesting → e.writeReadable limit = .error .tooDeep) ∧
      Reader.parseOne e.readable.toList = .ok (some (e.readBack, [])) ∧
      Reader.nestingOfFirst e.readable.toList = e.nesting ∧
      (∀ limit, e.readBack.writeReadable limit = e.writeReadable limit) ∧
      (e.readBack.agrees e = true ↔ e.IsFinite) ∧
      ∀ x : Float, Part (num x) e → Number.IsFinite x ∨ Number.IsInfinite x := by
  intro e he
  have hproduced := produced_of_parseAll h e he
  have hreadable := hproduced.readable_readBack
  have htext : e.readBack.readable = e.readable := congrArg String.ofList hproduced.write_readBack
  have hone := hreadable.parseOne_readable
  have hnesting := hreadable.nestingOfFirst_readable
  rw [htext, hproduced.unsignedZeros_readBack] at hone
  rw [htext, hproduced.nesting_readBack] at hnesting
  have hwritten (limit : Nat) : e.readBack.writeReadable limit = e.writeReadable limit := by
    rw [writeReadable, writeReadable, isWritable, isWritable, htext, hproduced.nesting_readBack]
  exact ⟨fun _ hle => writeReadable_eq_ok_iff.2 ⟨hle, rfl⟩, fun _ => writeReadable_of_too_deep,
    hone, hnesting, hwritten, hproduced.agrees_readBack_iff, fun _ => hproduced.finite_or_infinite⟩

/-- A numeral that is too large for a finite number. -/
theorem parseAll_large : Reader.parseAll "1e400".toList = .ok [num Number.infinity] := by
  have hatom : IsAtom "1e400".toList := ⟨by decide, List.all_eq_true.1 rfl⟩
  have hlexemes : lexemes [.atom "1e400".toList] = Lexeme.ofText "1e400".toList := by
    have := hatom.ofText endsAtom_nil
    rw [List.append_nil, ofText_nil] at this
    exact this.symm
  exact Reader.parseAll_of_lexemes hlexemes

theorem readable_infinity : (num Number.infinity).readable = "inf" := by
  decide +kernel

/-- The normal form of a number that is too large is read as a symbol, which does not agree. -/
theorem normal_form_of_large :
    Reader.parseAll "1e400".toList = .ok [num Number.infinity] ∧
    Reader.parseOne "inf".toList = .ok (some (sym "inf", [])) ∧
    (sym "inf").agrees (num Number.infinity) = false := by
  obtain ⟨-, -, hone, -⟩ := normal_forms _ _ parseAll_large _ List.mem_cons_self
  have hback : (num Number.infinity).readBack = sym "inf" := by
    rw [readBack, if_neg (Number.not_isFinite_of_isInfinite (.inl rfl))]
    exact congrArg sym readable_infinity
  rw [hback, readable_infinity] at hone
  exact ⟨parseAll_large, hone, rfl⟩

theorem parseOne_word : Reader.parseOne "inf".toList = .ok (some (sym "inf", [])) := by
  have hname : String.ofList (Number.display Number.infinity) = "inf" := readable_infinity
  have hsym := sym_of_isInfinite (.inl rfl)
  rw [hname] at hsym
  exact hsym.parseOne_readable

theorem parseAll_nested (depth : Nat) :
    Reader.parseAll (nested depth).readable.toList = .ok [nested depth] := by
  have hreadable := readable_nested depth
  have hzeros : (nested depth).unsignedZeros = nested depth := by
    induction depth with
    | zero => rfl
    | succ depth ih => exact congrArg (fun v => list [v]) (ih (readable_nested depth))
  have hlexemes : lexemes [(nested depth).derivation] =
      Lexeme.ofText (nested depth).readable.toList := by
    rw [hreadable.ofText_readable, lexemes, lexemes, List.append_nil]
  rw [Reader.parseAll_of_lexemes hlexemes, values, values, hreadable.value_derivation, hzeros]

/-- Not everything that is read has a text that reads back: an infinite number is printed as a word
that is read as a symbol, and lists that are nested too deeply are not printed at all. -/
theorem large_not_read_back :
    (∃ e, Reader.parseAll "1e400".toList = .ok [e] ∧
      (∀ limit, e.writeReadable limit = .ok "inf") ∧
      ∃ e', Reader.parseOne "inf".toList = .ok (some (e', [])) ∧ e'.agrees e = false) ∧
    Reader.parseAll (nested 599).readable.toList = .ok [nested 599] ∧
    ∀ limit < 600, (nested 599).writeReadable limit = .error .tooDeep := by
  have hwritten (limit : Nat) : (num Number.infinity).writeReadable limit = .ok "inf" :=
    writeReadable_eq_ok_iff.2 ⟨Nat.zero_le _, readable_infinity.symm⟩
  refine ⟨⟨num Number.infinity, parseAll_large, hwritten, sym "inf", parseOne_word, rfl⟩,
    parseAll_nested 599, fun limit hlimit => writeReadable_of_too_deep ?_⟩
  rwa [nesting_nested]

end Value

end SmallLisp
