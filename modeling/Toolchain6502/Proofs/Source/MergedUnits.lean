import Mathlib.Data.List.Induction
import Mathlib.Tactic.Common
import Toolchain6502.Source.Traced

namespace Toolchain6502

namespace Text

/-- A line feed behind the text closes no line of it, because the text is empty or ends in a break
that the line feed does not join. -/
def endsLine (cs : List Char) : Bool :=
  match cs.getLast? with
  | none => true
  | some c => isBreak c && c != '\r'

theorem endsLine_cons {cs : List Char} (hcs : cs ≠ []) (c : Char) :
    endsLine (c :: cs) = endsLine cs := by
  unfold endsLine
  rw [List.getLast?_cons_of_ne_nil hcs]

theorem splitLines_cons_of_break {c : Char} (hc : isBreak c = true) {cs : List Char}
    (hjoined : ∀ rest, c = '\r' → cs ≠ '\n' :: rest) :
    splitLines (c :: cs) = [] :: splitLines cs := by
  rw [splitLines]
  · rw [if_pos hc]
  · exact hjoined

theorem splitLines_cons {c : Char} (hc : isBreak c = false) (cs : List Char) :
    splitLines (c :: cs) = (c :: (splitLines cs).headD []) :: (splitLines cs).tail := by
  rw [splitLines]
  · rw [if_neg (by simp [hc])]
    cases splitLines cs <;> rfl
  · rintro rest rfl
    exact absurd hc (by decide)

theorem eq_nil_of_splitLines {cs : List Char} (h : splitLines cs = []) : cs = [] := by
  unfold splitLines at h
  split at h
  · rfl
  · simp at h
  · split at h
    · simp at h
    · split at h <;> simp at h

/-- A line feed ends the lines before it, and what stands behind it begins anew. -/
theorem splitLines_append_feed (cs rest : List Char) :
    splitLines (cs ++ '\n' :: rest) =
      splitLines cs ++ (if endsLine cs then [[]] else []) ++ splitLines rest := by
  induction cs using splitLines.induct with
  | case1 => rfl
  | case2 cs ih =>
    have hends : endsLine ('\r' :: '\n' :: cs) = endsLine cs := by
      cases cs with
      | nil => rfl
      | cons c cs => rw [endsLine_cons (by simp), endsLine_cons (by simp)]
    simp only [List.cons_append, splitLines, ih, hends]
  | case3 d cs hjoined hbreak ih =>
    cases cs with
    | nil =>
      by_cases hd : d = '\r'
      · subst hd
        rfl
      · have hfirst : splitLines (d :: '\n' :: rest) = [] :: [] :: splitLines rest :=
          splitLines_cons_of_break hbreak fun _ hcr => absurd hcr hd
        rw [List.singleton_append, hfirst, splitLines_cons_of_break hbreak (by simp)]
        simp [endsLine, hbreak, hd, splitLines]
    | cons c cs =>
      have hafter : ∀ more, d = '\r' → c :: cs ++ '\n' :: rest ≠ '\n' :: more := by
        rintro more hcr heq
        obtain ⟨rfl, -⟩ := List.cons.inj heq
        exact hjoined cs hcr rfl
      rw [List.cons_append, splitLines_cons_of_break hbreak hafter, ih,
        splitLines_cons_of_break hbreak hjoined, endsLine_cons (List.cons_ne_nil c cs)]
      rfl
  | case4 d cs hjoined hbreak hnil ih =>
    have hd : isBreak d = false := by simpa using hbreak
    obtain rfl := eq_nil_of_splitLines hnil
    have hfeed : splitLines ('\n' :: rest) = [] :: splitLines rest := rfl
    rw [List.singleton_append, splitLines_cons hd, splitLines_cons hd, hfeed]
    simp [endsLine, hd, splitLines]
  | case5 d cs hjoined hbreak first more hcons ih =>
    have hd : isBreak d = false := by simpa using hbreak
    have hcs : cs ≠ [] := by
      rintro rfl
      simp [splitLines] at hcons
    rw [List.cons_append, splitLines_cons hd, ih, splitLines_cons hd, endsLine_cons hcs, hcons]
    rfl

/-- The lines that a line feed ends, and what stands behind the last one. -/
def cutFeeds (line : List Char) : List Char → List (List Char) × List Char
  | [] => ([], line)
  | c :: cs =>
    if c = '\n' then (line :: (cutFeeds [] cs).1, (cutFeeds [] cs).2)
    else cutFeeds (line ++ [c]) cs

theorem cutFeeds_append (line xs ys : List Char) :
    (cutFeeds line (xs ++ ys)).1 = (cutFeeds line xs).1 ++ (cutFeeds (cutFeeds line xs).2 ys).1 ∧
      (cutFeeds line (xs ++ ys)).2 = (cutFeeds (cutFeeds line xs).2 ys).2 := by
  induction xs generalizing line with
  | nil => exact ⟨rfl, rfl⟩
  | cons x xs ih =>
    simp only [List.cons_append, cutFeeds]
    split
    · exact ⟨congrArg (line :: ·) (ih []).1, (ih []).2⟩
    · exact ih (line ++ [x])

end Text

namespace Source.Traced

open Files Text

def Aligned (u : Traced) : Prop := u.origins.length = u.lines.length

instance (u : Traced) : Decidable u.Aligned :=
  inferInstanceAs (Decidable (u.origins.length = u.lines.length))

/-- A unit is empty or ends in a line feed. -/
def Closed (u : Traced) : Prop := u.text = "" ∨ u.text.toList.getLast? = some '\n'

instance (u : Traced) : Decidable u.Closed :=
  inferInstanceAs (Decidable (u.text = "" ∨ u.text.toList.getLast? = some '\n'))

/-- A unit holds the lines of two others, one after the other, and each line has the origin that it
has in its own unit. -/
structure Joins (first second merged : Traced) : Prop where
  aligned : merged.Aligned
  lines : merged.lines = first.lines ++ second.lines
  keepsFirst : ∀ k < first.lines.length, merged.originOf? (k + 1) = first.originOf? (k + 1)
  keepsSecond : ∀ k < second.lines.length,
    merged.originOf? (first.lines.length + k + 1) = second.originOf? (k + 1)

theorem originOf?_succ (u : Traced) (k : Nat) : u.originOf? (k + 1) = u.origins[k]? := by
  have hpositive : (1 : Int) ≤ k + 1 := by omega
  have hindex : ((k : Int) + 1 - 1).toNat = k := by omega
  rw [originOf?, if_pos hpositive, hindex]

/-- Lines that are written one by one are all closed. -/
theorem closed_ofLines (ls : List TracedLine) : (ofLines ls).Closed := by
  cases ls using List.reverseRecOn with
  | nil => exact .inl rfl
  | append_singleton ls l =>
    right
    simp [ofLines, String.toList_join]

theorem merge_of_closed {first : Traced} (h : first.Closed) (second : Traced) :
    first.merge second = ⟨first.text ++ second.text, first.origins ++ second.origins⟩ := by
  have hclose : first.close = first := by
    unfold close
    rw [if_pos (by simpa [Closed] using h)]
  rw [merge, hclose]

theorem merge_of_open {first : Traced} (h : ¬first.Closed) (second : Traced) :
    first.merge second = ⟨first.text ++ "\n" ++ second.text,
      first.origins ++ [first.lastOrigin] ++ second.origins⟩ := by
  have hclose : first.close = ⟨first.text ++ "\n", first.origins ++ [first.lastOrigin]⟩ := by
    unfold close
    rw [if_neg (by simpa [Closed] using h)]
  rw [merge, hclose]

theorem lines_append_feed (first second : String) :
    Text.lines (first ++ "\n" ++ second) =
      Text.lines first ++ (if endsLine first.toList then [""] else []) ++ Text.lines second := by
  have htext : (first ++ "\n" ++ second).toList = first.toList ++ '\n' :: second.toList := by simp
  unfold Text.lines
  rw [htext, splitLines_append_feed, List.map_append, List.map_append]
  split <;> rfl

/-- The lines of a closed text are not touched by what follows it. -/
theorem lines_append_of_closed {first : Traced} (h : first.Closed) (second : Traced) :
    Text.lines (first.text ++ second.text) = first.lines ++ second.lines := by
  unfold Traced.lines
  rcases h with h | h
  · rw [h]
    simp [Text.lines, splitLines]
  · obtain ⟨cs, hcs⟩ := List.getLast?_eq_some_iff.mp h
    have htext : first.text = String.ofList cs ++ "\n" ++ "" := by
      rw [← String.toList_inj, hcs]
      simp
    have hclosed := lines_append_feed (String.ofList cs) ""
    rw [← htext] at hclosed
    have hempty : Text.lines "" = [] := rfl
    rw [hclosed, hempty, List.append_nil, ← lines_append_feed, htext, String.append_empty]

theorem originOf?_append {u second : Traced} {before : List Origin}
    (h : u.origins = before ++ second.origins) (k : Nat) :
    u.originOf? ((before.length : Int) + k + 1) = second.originOf? (k + 1) := by
  have hplace : (before.length : Int) + k + 1 = (before.length + k : Nat) + 1 := by omega
  rw [hplace, originOf?_succ, originOf?_succ, h, List.getElem?_append_right (by omega),
    Nat.add_sub_cancel_left]

theorem joins_of_closed {first second : Traced} (hfirst : first.Aligned)
    (hsecond : second.Aligned) (h : first.Closed) : Joins first second (first.merge second) := by
  have hlines : (first.merge second).lines = first.lines ++ second.lines := by
    rw [merge_of_closed h]
    exact lines_append_of_closed h second
  have horigins : (first.merge second).origins = first.origins ++ second.origins := by
    rw [merge_of_closed h]
  unfold Aligned at hfirst hsecond
  refine ⟨?_, hlines, ?_, ?_⟩
  · rw [Aligned, hlines, horigins, List.length_append, List.length_append, hfirst, hsecond]
  · intro k hk
    rw [originOf?_succ, originOf?_succ, horigins, List.getElem?_append_left (by omega)]
  · intro k _
    rw [← hfirst]
    exact originOf?_append horigins k

theorem length_origins_of_open {first second : Traced} (hfirst : first.Aligned)
    (hsecond : second.Aligned) (h : ¬first.Closed) :
    (first.merge second).origins.length = first.lines.length + 1 + second.lines.length := by
  unfold Aligned at hfirst hsecond
  rw [merge_of_open h]
  simp only [List.length_append, List.length_singleton]
  omega

/-- The origin that is added stands before those of the second unit. -/
theorem originOf?_of_open {first : Traced} (hfirst : first.Aligned) (h : ¬first.Closed)
    (second : Traced) (k : Nat) :
    (first.merge second).originOf? (first.lines.length + k + 2) = second.originOf? (k + 1) := by
  unfold Aligned at hfirst
  have horigins : (first.merge second).origins =
      first.origins ++ [first.lastOrigin] ++ second.origins := by
    rw [merge_of_open h]
  have hplace : (first.lines.length : Int) + k + 2 =
      ((first.origins ++ [first.lastOrigin]).length : Int) + k + 1 := by
    simp [hfirst]
    omega
  rw [hplace]
  exact originOf?_append horigins k

def fedLines (u : Traced) : List (List Char) := (cutFeeds [] u.text.toList).1

/-- What stands behind the last line feed, if there is anything. -/
def openLines (u : Traced) : List (List Char) :=
  let rest := (cutFeeds [] u.text.toList).2
  if rest = [] then [] else [rest]

/-- A unit has one origin for each line that a line feed ends. -/
def Fed (u : Traced) : Prop := u.origins.length = u.fedLines.length

instance (u : Traced) : Decidable u.Fed :=
  inferInstanceAs (Decidable (u.origins.length = u.fedLines.length))

/-- A unit holds the lines of two others, one after the other. Each line that was ended before has
the origin that it has in its own unit, and one that is ended between them that of the line before
it. -/
structure JoinsFed (first second merged : Traced) : Prop where
  fed : merged.Fed
  lines : merged.fedLines = first.fedLines ++ first.openLines ++ second.fedLines
  keepsOpen : merged.openLines = second.openLines
  keepsFirst : ∀ k < first.fedLines.length, merged.originOf? (k + 1) = first.originOf? (k + 1)
  ended : first.openLines ≠ [] →
    merged.originOf? (first.fedLines.length + 1) = some first.lastOrigin
  keepsSecond : ∀ k < second.fedLines.length,
    merged.originOf? ((first.fedLines ++ first.openLines).length + k + 1) = second.originOf? (k + 1)

theorem cutFeeds_of_closed {u : Traced} (h : u.Closed) : (cutFeeds [] u.text.toList).2 = [] := by
  rcases h with h | h
  · rw [h]
    rfl
  · obtain ⟨cs, hcs⟩ := List.getLast?_eq_some_iff.mp h
    rw [hcs, (cutFeeds_append [] cs ['\n']).2]
    simp [cutFeeds]

theorem cutFeeds_of_open {u : Traced} (h : ¬u.Closed) : (cutFeeds [] u.text.toList).2 ≠ [] := by
  obtain ⟨hne, hlast⟩ := not_or.mp h
  have htext : u.text.toList ≠ [] := by simpa using hne
  obtain ⟨c, hc⟩ := Option.isSome_iff_exists.mp (List.getLast?_isSome.mpr htext)
  obtain ⟨cs, hcs⟩ := List.getLast?_eq_some_iff.mp hc
  have hc : c ≠ '\n' := by
    rintro rfl
    exact hlast hc
  rw [hcs, (cutFeeds_append [] cs [c]).2]
  simp [cutFeeds, hc]

/-- A merge ends what is open in the first unit, and gives it an origin. -/
theorem merge_ends_open (first second : Traced) :
    (first.merge second).fedLines = first.fedLines ++ first.openLines ++ second.fedLines ∧
      (first.merge second).openLines = second.openLines ∧
      (first.merge second).origins =
        first.origins ++ first.openLines.map (fun _ => first.lastOrigin) ++ second.origins := by
  by_cases hclosed : first.Closed
  · have hrest := cutFeeds_of_closed hclosed
    have hcut := cutFeeds_append [] first.text.toList second.text.toList
    rw [hrest] at hcut
    have hopen : first.openLines = [] := by simp [openLines, hrest]
    rw [merge_of_closed hclosed, hopen]
    simp only [fedLines, openLines, String.toList_append, hcut.1, hcut.2, List.append_nil,
      List.map_nil, and_self]
  · have hrest := cutFeeds_of_open hclosed
    -- The line feed that is added is the one that ends the rest.
    have hcut := cutFeeds_append [] first.text.toList ('\n' :: second.text.toList)
    simp only [cutFeeds, if_true] at hcut
    have htext : (first.text ++ "\n" ++ second.text).toList =
        first.text.toList ++ '\n' :: second.text.toList := by simp
    have hopen : first.openLines = [(cutFeeds [] first.text.toList).2] := by
      simp [openLines, hrest]
    rw [merge_of_open hclosed, hopen]
    simp only [fedLines, openLines, htext, hcut.1, hcut.2, List.append_assoc,
      List.singleton_append, List.map_cons, List.map_nil, and_self]

theorem joinsFed_merge {first second : Traced} (hfirst : first.Fed) (hsecond : second.Fed) :
    JoinsFed first second (first.merge second) := by
  obtain ⟨hlines, hopen, horigins⟩ := merge_ends_open first second
  unfold Fed at hfirst hsecond
  have hfront : (first.fedLines ++ first.openLines).length =
      (first.origins ++ first.openLines.map fun _ => first.lastOrigin).length := by
    rw [List.length_append, List.length_append, List.length_map, hfirst]
  refine ⟨?_, hlines, hopen, fun k hk => ?_, fun hne => ?_, fun k _ => ?_⟩
  · rw [Fed, hlines, horigins, List.length_append, ← hfront, hsecond]
    exact List.length_append.symm
  · rw [originOf?_succ, originOf?_succ, horigins, List.append_assoc,
      List.getElem?_append_left (by omega)]
  · obtain ⟨rest, others, hrest⟩ := List.exists_cons_of_ne_nil hne
    rw [originOf?_succ, horigins, List.append_assoc, ← hfirst,
      List.getElem?_append_right (by omega), hrest]
    simp
  · rw [hfront]
    exact originOf?_append horigins k

theorem closed_of_joins {first second : Traced} (hfirst : first.Aligned) (hsecond : second.Aligned)
    (h : Joins first second (first.merge second)) : first.Closed := by
  by_contra hopen
  have haligned := h.aligned
  unfold Aligned at haligned
  rw [h.lines, List.length_append, length_origins_of_open hfirst hsecond hopen] at haligned
  omega

/-- Two units with one origin for each line that a line feed ends are joined to another one. Where
there is one origin for each line, however it ends, they are joined just when the first one is
closed: the line feed that is added gets an origin, but a line of its own only if the text ends in
another break, and the origins of the second unit stand one line late. -/
theorem merge_joins_iff (first second : Traced) :
    (first.Fed → second.Fed → JoinsFed first second (first.merge second)) ∧
    (first.Aligned → second.Aligned →
      (Joins first second (first.merge second) ↔ first.Closed) ∧
      (¬first.Closed →
        (first.merge second).lines =
          first.lines ++ (if endsLine first.text.toList then [""] else []) ++ second.lines ∧
        (first.merge second).origins.length = first.lines.length + 1 + second.lines.length ∧
        ∀ k : Nat, (first.merge second).originOf? (first.lines.length + k + 2) =
          second.originOf? (k + 1))) := by
  refine ⟨joinsFed_merge, fun hfirst hsecond => ⟨⟨closed_of_joins hfirst hsecond,
    joins_of_closed hfirst hsecond⟩, fun hopen => ?_⟩⟩
  refine ⟨?_, length_origins_of_open hfirst hsecond hopen, originOf?_of_open hfirst hopen second⟩
  rw [merge_of_open hopen]
  exact lines_append_feed first.text second.text

def playerUnit : Traced :=
  ⟨"RTS\nBRK\n", [⟨Path.ofText "/game/player.asm", 1⟩, ⟨Path.ofText "/game/player.asm", 2⟩]⟩

/-- A line that is ended, and one that is not. -/
def mainUnit : Traced := ⟨"NOP\nCLC", [⟨Path.ofText "/game/main.asm", 1⟩]⟩

def openUnit : Traced := ⟨"NOP", [⟨Path.ofText "/game/main.asm", 1⟩]⟩

theorem mainUnit_joined :
    (mainUnit.Fed ∧ playerUnit.Fed ∧
      JoinsFed mainUnit playerUnit (mainUnit.merge playerUnit) ∧
      (mainUnit.merge playerUnit).fedLines.map String.ofList = ["NOP", "CLC", "RTS", "BRK"]) ∧
    playerUnit.Aligned ∧ openUnit.Aligned ∧
      Joins playerUnit openUnit (playerUnit.merge openUnit) := by
  have hmain : mainUnit.Fed := by decide +kernel
  have hfed : playerUnit.Fed := by decide +kernel
  have hplayer : playerUnit.Aligned := by decide +kernel
  have hopen : openUnit.Aligned := by decide +kernel
  have hclosed : playerUnit.Closed := by decide +kernel
  exact ⟨⟨hmain, hfed, (merge_joins_iff mainUnit playerUnit).1 hmain hfed, by decide +kernel⟩,
    hplayer, hopen, ((merge_joins_iff playerUnit openUnit).2 hplayer hopen).1.2 hclosed⟩

/-- Three lines get four origins, and the first line of the second unit is taken for one of the
first. -/
theorem openUnit_misplaced : openUnit.Aligned ∧ playerUnit.Aligned ∧
    (openUnit.merge playerUnit).lines = ["NOP", "RTS", "BRK"] ∧
    (openUnit.merge playerUnit).origins.length = 4 ∧
    (openUnit.merge playerUnit).originOf? 2 = some ⟨Path.ofText "/game/main.asm", 1⟩ ∧
    ¬Joins openUnit playerUnit (openUnit.merge playerUnit) := by
  have hlines : (openUnit.merge playerUnit).lines = ["NOP", "RTS", "BRK"] := by decide +kernel
  have hcount : (openUnit.merge playerUnit).origins.length = 4 := by decide +kernel
  refine ⟨by decide +kernel, by decide +kernel, hlines, hcount, by decide +kernel, ?_⟩
  intro hjoins
  have haligned := hjoins.aligned
  rw [Aligned, hcount, hlines] at haligned
  simp at haligned

end Source.Traced

end Toolchain6502
