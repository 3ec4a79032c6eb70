import Mathlib.Data.List.Infix
import Skeleton.Proofs.Except
import Skeleton.Proofs.VarPath
import Skeleton.Template.Render

-- Templates that are put together. What stands behind a template changes nothing of its text, and
-- what stands in front of one only counts for the offsets of faults.

namespace Skeleton.Template

section Cut

variable {c : Char} {cs more before after : List Char}

theorem append_of_cutAtPair (h : cutAtPair c cs = some (before, after)) :
    cs = before ++ c :: c :: after := by
  fun_induction cutAtPair c cs generalizing before after with
  | case1 => simp at h
  | case2 => simp at h
  | case3 x y rest hpair =>
    obtain ⟨rfl, rfl⟩ := hpair
    simp only [Option.some.injEq, Prod.mk.injEq] at h
    obtain ⟨rfl, rfl⟩ := h
    rfl
  | case4 x y rest hpair ih =>
    simp only [Option.map_eq_some_iff, Prod.mk.injEq, Prod.exists] at h
    obtain ⟨b, a, hcut, rfl, rfl⟩ := h
    rw [ih hcut, List.cons_append]

-- The first pair stays the first one, whatever stands behind it.
theorem cutAtPair_append_of_some (h : cutAtPair c cs = some (before, after)) :
    cutAtPair c (cs ++ more) = some (before, after ++ more) := by
  fun_induction cutAtPair c cs generalizing before after with
  | case1 => simp at h
  | case2 => simp at h
  | case3 x y rest hpair =>
    simp only [Option.some.injEq, Prod.mk.injEq] at h
    obtain ⟨rfl, rfl⟩ := h
    simp [cutAtPair, hpair]
  | case4 x y rest hpair ih =>
    simp only [Option.map_eq_some_iff, Prod.mk.injEq, Prod.exists] at h
    obtain ⟨b, a, hcut, rfl, rfl⟩ := h
    have hrest := ih hcut
    rw [List.cons_append] at hrest
    simp [cutAtPair, hpair, hrest]

-- Behind a text without a pair the first pair is found where it is without that text, unless half
-- of a pair stands on each side.
theorem cutAtPair_append_of_none (h : cutAtPair c cs = none)
    (hapart : ¬(cs.getLast? = some c ∧ more.head? = some c)) :
    cutAtPair c (cs ++ more) = (cutAtPair c more).map fun (b, a) => (cs ++ b, a) := by
  fun_induction cutAtPair c cs with
  | case1 => cases hmore : cutAtPair c more <;> simp [hmore]
  | case2 x =>
    cases more with
    | nil => rfl
    | cons y more =>
      have hpair : ¬(x = c ∧ y = c) := by simpa using hapart
      rw [List.singleton_append, cutAtPair, if_neg hpair]
      rfl
  | case3 => simp at h
  | case4 x y rest hpair ih =>
    rw [Option.map_eq_none_iff] at h
    have hrest := ih h (by simpa using hapart)
    rw [List.cons_append] at hrest
    rw [List.cons_append, List.cons_append, cutAtPair, if_neg hpair, hrest, Option.map_map]
    rfl

theorem cutAtPair_eq_none_iff : cutAtPair c cs = none ↔ ¬[c, c] <:+: cs := by
  fun_induction cutAtPair c cs with
  | case1 => simp
  | case2 x => simp [List.infix_cons_iff]
  | case3 x y rest hpair =>
    obtain ⟨rfl, rfl⟩ := hpair
    simp [List.infix_cons_iff]
  | case4 x y rest hpair ih =>
    have hprefix : ¬[c, c] <+: x :: y :: rest := by
      intro h
      simp only [List.cons_prefix_cons] at h
      exact hpair ⟨h.1.symm, h.2.1.symm⟩
    rw [Option.map_eq_none_iff, ih, @List.infix_cons_iff _ _ x, not_or]
    exact (and_iff_right hprefix).symm

-- A text is cut before the first pair, which no half of a pair stands in front of.
theorem cutAtPair_eq_some_iff : cutAtPair c cs = some (before, after) ↔
    cs = before ++ c :: c :: after ∧ ¬[c, c] <:+: before ++ [c] := by
  constructor
  · intro h
    refine ⟨append_of_cutAtPair h, ?_⟩
    fun_induction cutAtPair c cs generalizing before after with
    | case1 => simp at h
    | case2 => simp at h
    | case3 x y rest hpair =>
      obtain rfl : [] = before := (Prod.mk.inj (Option.some.inj h)).1
      simp [List.infix_cons_iff]
    | case4 x y rest hpair ih =>
      simp only [Option.map_eq_some_iff, Prod.mk.injEq, Prod.exists] at h
      obtain ⟨b, a, hcut, rfl, rfl⟩ := h
      -- what stands behind the first character is the second one, be it the pair's or not
      have hy : (b ++ [c]).head? = some y := by
        have hhead := congrArg List.head? (append_of_cutAtPair hcut)
        cases b <;> simpa using hhead.symm
      rw [List.cons_append, List.infix_cons_iff, not_or]
      refine ⟨fun hprefix => hpair ?_, ih hcut⟩
      obtain ⟨rfl, rest, hrest⟩ := List.cons_prefix_cons.mp hprefix
      rw [← hrest] at hy
      exact ⟨rfl, (Option.some.inj hy).symm⟩
  · rintro ⟨rfl, hpair⟩
    have hnone : cutAtPair c before = none := by
      rw [cutAtPair_eq_none_iff]
      exact fun h => hpair (h.trans List.infix_append_left)
    have hlast : before.getLast? ≠ some c := by
      intro hlast
      obtain ⟨rest, rfl⟩ := List.getLast?_eq_some_iff.mp hlast
      exact hpair (by simp [List.IsInfix])
    rw [cutAtPair_append_of_none hnone fun h => hlast h.1]
    simp [cutAtPair]

theorem cutAtPair_of_not_mem (h : c ∉ before) (after : List Char) :
    cutAtPair c (before ++ c :: c :: after) = some (before, after) := by
  have hnone : cutAtPair c before = none := by
    rw [cutAtPair_eq_none_iff]
    exact fun hpair => h (hpair.subset List.mem_cons_self)
  have hlast : before.getLast? ≠ some c := fun hlast => h (List.mem_of_getLast? hlast)
  rw [cutAtPair_append_of_none hnone fun hpair => hlast hpair.1]
  simp [cutAtPair]

end Cut

-- The same fault with more characters in front of it.
def Error.behind (n : Nat) (e : Error) : Error := { e with offset := n + e.offset }

def Placeholder.behind (n : Nat) (p : Placeholder) : Placeholder :=
  { p with offset := n + p.offset }

def Segment.behind (n : Nat) : Segment → Segment
  | text cs => text cs
  | placeholder p => placeholder (p.behind n)

def renderFrom (context : Context) (offset : Nat) (cs : List Char) : Except Error String := do
  renderSegments context (← segmentsFrom offset cs)

theorem render_eq_renderFrom (context : Context) (template : String) :
    render context template = renderFrom context 0 template.toList := rfl

section Segments

variable {offset : Nat} {cs before rest inside after : List Char}

theorem segmentsFrom_of_plain (hopen : cutAtPair '\x7b' cs = none) :
    segmentsFrom offset cs = .ok (if cs.isEmpty then [] else [.text cs]) := by
  rw [segmentsFrom]
  split
  · rfl
  · rename_i hsome
    cases hopen.symm.trans hsome

theorem segmentsFrom_of_unterminated (hopen : cutAtPair '\x7b' cs = some (before, rest))
    (hclose : cutAtPair '\x7d' rest = none) :
    segmentsFrom offset cs = .error ⟨offset + before.length, .unterminated⟩ := by
  rw [segmentsFrom]
  split
  · rename_i hnone
    cases hopen.symm.trans hnone
  · rename_i hsome
    obtain ⟨rfl, rfl⟩ := Prod.mk.inj (Option.some.inj (hopen.symm.trans hsome))
    simp only
    split
    · rfl
    · rename_i hsome
      cases hclose.symm.trans hsome

theorem segmentsFrom_of_placeholder (hopen : cutAtPair '\x7b' cs = some (before, rest))
    (hclose : cutAtPair '\x7d' rest = some (inside, after)) :
    segmentsFrom offset cs = (do
      let start := offset + before.length
      let p ← (readPlaceholder start inside).mapError (.mk start)
      let segments ← segmentsFrom (start + inside.length + 4) after
      .ok ((if before.isEmpty then [] else [.text before]) ++ .placeholder p :: segments)) := by
  rw [segmentsFrom]
  split
  · rename_i hnone
    cases hopen.symm.trans hnone
  · rename_i hsome
    obtain ⟨rfl, rfl⟩ := Prod.mk.inj (Option.some.inj (hopen.symm.trans hsome))
    simp only
    split
    · rename_i hnone
      cases hclose.symm.trans hnone
    · rename_i hsome
      obtain ⟨rfl, rfl⟩ := Prod.mk.inj (Option.some.inj (hclose.symm.trans hsome))
      cases readPlaceholder (offset + before.length) inside with
      | error fault => rfl
      | ok p => cases segmentsFrom (offset + before.length + inside.length + 4) after <;> rfl

end Segments

section Offset

variable {context : Context} {n offset : Nat} {cs : List Char}

theorem readPlaceholder_add (n offset : Nat) (inside : List Char) :
    readPlaceholder (n + offset) inside =
      (readPlaceholder offset inside).map (Placeholder.behind n) := by
  unfold readPlaceholder
  simp only
  split
  · rfl
  · split
    · rfl
    · split
      · rfl
      · cases readFilters _ <;> rfl

theorem segmentsFrom_add : segmentsFrom (n + offset) cs =
    ((segmentsFrom offset cs).map (List.map (Segment.behind n))).mapError (Error.behind n) := by
  fun_induction segmentsFrom offset cs with
  | case1 offset cs hopen =>
    rw [segmentsFrom_of_plain hopen]
    split <;> rfl
  | case2 offset cs before rest hopen start hclose =>
    rw [segmentsFrom_of_unterminated hopen hclose, Nat.add_assoc]
    rfl
  | case3 offset cs before rest hopen start inside after hclose fault hread =>
    rw [segmentsFrom_of_placeholder hopen hclose]
    simp only [Nat.add_assoc n, readPlaceholder_add n (offset + before.length)]
    rw [hread]
    rfl
  | case4 offset cs before rest hopen start inside after hclose p hread e hrest ih =>
    rw [segmentsFrom_of_placeholder hopen hclose]
    simp only [Nat.add_assoc n, readPlaceholder_add n (offset + before.length)]
    rw [hread, ih, hrest]
    rfl
  | case5 offset cs before rest hopen start inside after hclose p hread segments hrest ih =>
    rw [segmentsFrom_of_placeholder hopen hclose]
    simp only [Nat.add_assoc n, readPlaceholder_add n (offset + before.length)]
    rw [hread, ih, hrest]
    by_cases hbefore : before.isEmpty = true <;>
      simp [hbefore, Except.map, Except.mapError, bind, Except.bind, Segment.behind]

theorem renderPlaceholder_behind (p : Placeholder) : renderPlaceholder context (p.behind n) =
    (renderPlaceholder context p).mapError (Error.behind n) := by
  unfold renderPlaceholder Placeholder.behind
  simp only
  cases context.resolvePath? p.path with
  | none => rfl
  | some v =>
    simp only
    cases applyFilters p.path p.filters v <;> rfl

theorem renderSegments_behind (segments : List Segment) :
    renderSegments context (segments.map (Segment.behind n)) =
      (renderSegments context segments).mapError (Error.behind n) := by
  induction segments with
  | nil => rfl
  | cons segment rest ih =>
    cases segment with
    | text cs =>
      rw [List.map_cons, Segment.behind, renderSegments, renderSegments, ih]
      cases renderSegments context rest <;> rfl
    | placeholder p =>
      rw [List.map_cons, Segment.behind, renderSegments, renderSegments, ih,
        renderPlaceholder_behind]
      cases renderPlaceholder context p with
      | error e => rfl
      | ok s => cases renderSegments context rest <;> rfl

theorem renderFrom_add : renderFrom context (n + offset) cs =
    (renderFrom context offset cs).mapError (Error.behind n) := by
  unfold renderFrom
  rw [segmentsFrom_add]
  cases segmentsFrom offset cs with
  | error e => rfl
  | ok segments => exact renderSegments_behind segments

end Offset

-- Rendering from the left. Up to the first placeholder a template stays as it is, and what is
-- behind the placeholder is rendered in its turn.
inductive Renders (context : Context) : Nat → List Char → String → Prop where
  | plain {offset cs} (hopen : cutAtPair '\x7b' cs = none) :
      Renders context offset cs (.ofList cs)
  | placeholder {offset cs before rest inside after p s text}
      (hopen : cutAtPair '\x7b' cs = some (before, rest))
      (hclose : cutAtPair '\x7d' rest = some (inside, after))
      (hread : readPlaceholder (offset + before.length) inside = .ok p)
      (hp : renderPlaceholder context p = .ok s)
      (h : Renders context (offset + before.length + inside.length + 4) after text) :
      Renders context offset cs (.ofList before ++ s ++ text)

section Append

variable {context : Context} {offset : Nat} {cs more before rest inside after : List Char}
  {p : Placeholder} {s text : String}

theorem renderSegments_text (cs : List Char) (segments : List Segment) :
    renderSegments context ((if cs.isEmpty then [] else [.text cs]) ++ segments) =
      (renderSegments context segments).map (String.ofList cs ++ ·) := by
  cases cs with
  | nil => cases h : renderSegments context segments <;> simp [h, Except.map]
  | cons c cs => cases h : renderSegments context segments <;>
      simp [renderSegments, h, Except.map, bind, Except.bind]

theorem renderFrom_of_plain (hopen : cutAtPair '\x7b' cs = none) :
    renderFrom context offset cs = .ok (.ofList cs) := by
  have htext := @renderSegments_text context cs []
  rw [List.append_nil] at htext
  rw [renderFrom, segmentsFrom_of_plain hopen]
  refine htext.trans ?_
  simp [renderSegments, Except.map]

theorem renderFrom_of_placeholder (hopen : cutAtPair '\x7b' cs = some (before, rest))
    (hclose : cutAtPair '\x7d' rest = some (inside, after))
    (hread : readPlaceholder (offset + before.length) inside = .ok p)
    (hp : renderPlaceholder context p = .ok s) :
    renderFrom context offset cs =
      (renderFrom context (offset + before.length + inside.length + 4) after).map
        (String.ofList before ++ s ++ ·) := by
  unfold renderFrom
  rw [segmentsFrom_of_placeholder hopen hclose]
  simp only [hread]
  cases segmentsFrom (offset + before.length + inside.length + 4) after with
  | error e => rfl
  | ok segments =>
    refine (renderSegments_text before _).trans ?_
    rw [renderSegments, hp]
    cases h : renderSegments context segments <;>
      simp [h, Except.map, bind, Except.bind, String.append_assoc]

theorem renders_of_segmentsFrom {segments : List Segment}
    (hsegments : segmentsFrom offset cs = .ok segments)
    (h : renderSegments context segments = .ok text) : Renders context offset cs text := by
  fun_induction segmentsFrom offset cs generalizing segments text with
  | case1 offset cs hopen =>
    have hplain := @renderFrom_of_plain context offset cs hopen
    rw [renderFrom, segmentsFrom_of_plain hopen, hsegments] at hplain
    obtain rfl := Except.ok.inj (h.symm.trans hplain)
    exact .plain hopen
  | case2 => cases hsegments
  | case3 => cases hsegments
  | case4 => cases hsegments
  | case5 offset cs before rest hopen start inside after hclose p hread parts hparts =>
    rename_i ih
    obtain rfl := Except.ok.inj hsegments
    rw [renderSegments_text] at h
    obtain ⟨t, ht, rfl⟩ := map_eq_ok_iff.mp h
    obtain ⟨s, hs, ht⟩ := bind_eq_ok_iff.mp ht
    obtain ⟨t, hsegments, ht⟩ := bind_eq_ok_iff.mp ht
    obtain rfl := Except.ok.inj ht
    have hrenders := ih hparts hsegments
    rw [← String.append_assoc]
    exact .placeholder hopen hclose hread hs hrenders

theorem renders_of_renderFrom (h : renderFrom context offset cs = .ok text) :
    Renders context offset cs text := by
  obtain ⟨segments, hsegments, h⟩ := bind_eq_ok_iff.mp h
  exact renders_of_segmentsFrom hsegments h

theorem renderFrom_append_of_plain (hopen : cutAtPair '\x7b' cs = none)
    (hapart : ¬(cs.getLast? = some '\x7b' ∧ more.head? = some '\x7b')) :
    renderFrom context offset (cs ++ more) =
      (renderFrom context (offset + cs.length) more).map (String.ofList cs ++ ·) := by
  have hcut := cutAtPair_append_of_none hopen hapart
  cases hmore : cutAtPair '\x7b' more with
  | none =>
    rw [hmore] at hcut
    rw [renderFrom_of_plain hcut, renderFrom_of_plain hmore]
    simp [Except.map]
  | some parts =>
    obtain ⟨before, rest⟩ := parts
    rw [hmore] at hcut
    -- the texts on both sides of the seam become one, and the placeholder behind them starts
    -- where it did
    have hstart : offset + (cs ++ before).length = offset + cs.length + before.length := by
      rw [List.length_append, Nat.add_assoc]
    unfold renderFrom
    cases hclose : cutAtPair '\x7d' rest with
    | none =>
      rw [segmentsFrom_of_unterminated hcut hclose, segmentsFrom_of_unterminated hmore hclose,
        hstart]
      rfl
    | some parts =>
      obtain ⟨inside, after⟩ := parts
      rw [segmentsFrom_of_placeholder hcut hclose, segmentsFrom_of_placeholder hmore hclose]
      simp only [hstart]
      cases readPlaceholder (offset + cs.length + before.length) inside with
      | error fault => rfl
      | ok p =>
        cases segmentsFrom (offset + cs.length + before.length + inside.length + 4) after with
        | error e => rfl
        | ok segments =>
          refine (renderSegments_text (cs ++ before) _).trans ?_
          refine Eq.trans ?_ (congrArg _ (renderSegments_text before _)).symm
          cases renderSegments context (.placeholder p :: segments) <;>
            simp [Except.map, String.append_assoc]

-- By induction on the rendering in front: its placeholders end before the seam, and what is left of
-- it is plain.
theorem Renders.append (h : Renders context offset cs text)
    (hapart : ¬(cs.getLast? = some '\x7b' ∧ more.head? = some '\x7b')) :
    renderFrom context offset (cs ++ more) =
      (renderFrom context (offset + cs.length) more).map (text ++ ·) := by
  induction h with
  | plain hopen => exact renderFrom_append_of_plain hopen hapart
  | @placeholder offset cs before rest inside after p s text hopen hclose hread hp h ih =>
    have hcs := append_of_cutAtPair hopen
    have hrest := append_of_cutAtPair hclose
    have hlength : offset + before.length + inside.length + 4 + after.length =
        offset + cs.length := by
      rw [hcs, hrest]
      simp only [List.length_append, List.length_cons]
      omega
    have hafter : ¬(after.getLast? = some '\x7b' ∧ more.head? = some '\x7b') := by
      rintro ⟨hlast, hhead⟩
      refine hapart ⟨?_, hhead⟩
      rw [hcs, hrest]
      simp [List.getLast?_append, List.getLast?_cons, hlast]
    rw [renderFrom_of_placeholder (cutAtPair_append_of_some hopen)
      (cutAtPair_append_of_some hclose) hread hp, ih hafter, hlength]
    cases renderFrom context (offset + cs.length) more <;>
      simp [Except.map, String.append_assoc]

end Append

section Reference

variable {context : Context} {path : VarPath} {v : String}

def reference (path : VarPath) : String := "\x7b\x7b " ++ path.text ++ " \x7d\x7d"

theorem readPlaceholder_text (path : VarPath) :
    readPlaceholder 0 ([' '] ++ path.text.toList ++ [' ']) = .ok ⟨0, path, []⟩ := by
  have hword : ∀ c ∈ path.text.toList, Text.isBlank c = false :=
    fun c hc => VarPath.not_isBlank_of_mem_text hc
  have hspace : ∀ c ∈ [' '], Text.isBlank c = true := by simp [Text.isBlank]
  have htrim := Text.trimBlanks_append hspace hword hspace
  have hbar : '|' ∉ path.text.toList := VarPath.not_mem_text rfl (by decide) (by decide)
  unfold readPlaceholder
  rw [Text.splitAtEvery_of_not_mem (by simpa using hbar)]
  simp only [List.map_cons, List.map_nil, htrim, String.ofList_toList]
  simp [path.text_ne_empty, path.ofText?_text, readFilters, Except.map]

theorem render_reference (h : context.resolvePath? path = some (.string v)) :
    render context (reference path) = .ok v := by
  have hbrace : '\x7d' ∉ path.text.toList := VarPath.not_mem_text rfl (by decide) (by decide)
  have hopen : cutAtPair '\x7b' (reference path).toList =
      some ([], [' '] ++ path.text.toList ++ [' '] ++ ['\x7d', '\x7d']) := by
    simp [reference, cutAtPair]
  have hclose : cutAtPair '\x7d' ([' '] ++ path.text.toList ++ [' '] ++ ['\x7d', '\x7d']) =
      some ([' '] ++ path.text.toList ++ [' '], []) :=
    cutAtPair_of_not_mem (by simpa using hbrace) []
  have hvalue : renderPlaceholder context ⟨0, path, []⟩ = .ok v := by
    simp only [renderPlaceholder, h]
    rfl
  rw [render_eq_renderFrom,
    renderFrom_of_placeholder hopen hclose (readPlaceholder_text path) hvalue,
    renderFrom_of_plain (by rfl)]
  simp [Except.map]

end Reference

-- A template is rendered piece by piece. What stands in a variable is put in as it is, and a
-- template without double braces is its own text.
theorem render_pieces (context : Context) :
    (∀ front back text, render context front = .ok text →
      ¬(front.toList.getLast? = some '\x7b' ∧ back.toList.head? = some '\x7b') →
      (∀ more, render context back = .ok more →
        render context (front ++ back) = .ok (text ++ more)) ∧
      ∀ e, render context back = .error e →
        render context (front ++ back) = .error ⟨e.offset + front.length, e.fault⟩) ∧
    (∀ path v, context.resolvePath? path = some (.string v) →
      render context (reference path) = .ok v) ∧
    ∀ template : String, ¬['\x7b', '\x7b'] <:+: template.toList →
      render context template = .ok template := by
  refine ⟨fun front back text hfront hapart => ?_, fun path v h => render_reference h,
    fun template hplain => ?_⟩
  · have happend := (renders_of_renderFrom hfront).append hapart
    rw [Nat.zero_add, String.length_toList, ← Nat.add_zero front.length, renderFrom_add,
      ← render_eq_renderFrom, ← String.toList_append, ← render_eq_renderFrom] at happend
    refine ⟨fun more hmore => ?_, fun e he => ?_⟩
    · rw [happend, hmore]
      rfl
    · rw [happend, he, Nat.add_comm]
      rfl
  · rw [render_eq_renderFrom, renderFrom_of_plain (cutAtPair_eq_none_iff.mpr hplain),
      String.ofList_toList]

-- A variable that holds what looks like a placeholder.
def quoting : Context := ⟨[⟨"vars", Dictionary.ofList [("name", .string "{{ x }}")]⟩]⟩

def quotingName : VarPath := ⟨"name", [], by decide⟩

def unboundName : VarPath := ⟨"x", [], by decide⟩

theorem render_pieces_quoting :
    render quoting "é {{name}} \x7b" = .ok "é {{ x }} \x7b" ∧
    render quoting ("é {{name}} \x7b" ++ "name\x7d\x7d") = .ok "é {{ x }} \x7bname\x7d\x7d" ∧
    render quoting "b{{ x | json }}" = .error ⟨1, .unbound unboundName⟩ ∧
    render quoting ("é {{name}} \x7b" ++ "b{{ x | json }}") =
      .error ⟨1 + 12, .unbound unboundName⟩ ∧
    quoting.resolvePath? quotingName = some (.string "{{ x }}") ∧
    render quoting (reference quotingName) = .ok "{{ x }}" ∧
    ¬['\x7b', '\x7b'] <:+: "name\x7d\x7d".toList := by
  have hfront : render quoting "é {{name}} \x7b" = .ok "é {{ x }} \x7b" := by cbv
  have hback : render quoting "b{{ x | json }}" = .error ⟨1, .unbound unboundName⟩ := by cbv
  have hname : quoting.resolvePath? quotingName = some (.string "{{ x }}") := by cbv
  have hplain : ¬['\x7b', '\x7b'] <:+: "name\x7d\x7d".toList := by decide
  obtain ⟨hpieces, hreference, hself⟩ := render_pieces quoting
  have htext := hself _ hplain
  exact ⟨hfront, (hpieces _ _ _ hfront (by decide)).1 _ htext, hback,
    (hpieces _ _ _ hfront (by decide)).2 _ hback, hname, hreference _ _ hname, hplain⟩

end Skeleton.Template
