import Playbook.Proofs.Prototype

/-!
# Playbook — the one way to cut a text at its placeholders

A template alternates between literals and placeholders. Where the placeholders
are can be said without any scanning: the token of each ends at the nearest two
closing braces of its line, and no placeholder could have started earlier,
inside of the literal before it (`Cut.Leftmost`). There is exactly one way to
cut a text like that. The tokens of a text and what filling makes of it are both
read off that one cut, so they cannot disagree, and what was filled in is never
looked at again.

Main results:

* `closeToken_eq_some_iff`, `openToken_eq_none_iff` — what scanning finds at a
  place, and when it finds nothing.
* `cuts_cut`, `Cut.Cuts.eq_cut` — scanning cuts a text at its placeholders, and
  there is no other way.
* `cut_at_placeholders` — the tokens of a text and its filling by that cut.
-/

namespace Playbook.Template

/-! ## Where a placeholder is -/

/-- A text between two opening and two closing braces. -/
def braced (inner : List Char) : List Char :=
  '\x7b' :: '\x7b' :: (inner ++ ['\x7d', '\x7d'])

/-- The text begins with something on one line between two opening and two
closing braces. -/
def Opens (cs : List Char) : Prop := ∃ inner rest, '\n' ∉ inner ∧
    cs = braced inner ++ rest

/-- What can be the token of a placeholder: the nearest two closing braces of
the line are those behind it. -/
structure IsToken (token : List Char) : Prop where
  line : '\n' ∉ token
  nearest : ¬ ['\x7d', '\x7d'] <:+: token
  ending : token.getLast? ≠ some '\x7d'

theorem isToken_nil : IsToken [] := ⟨List.not_mem_nil, by simp, by simp⟩

/-- A character before a token belongs to it unless it makes two closing braces
with what follows. -/
theorem isToken_cons {c : Char} {token : List Char} :
    IsToken (c :: token) ↔
      c ≠ '\n' ∧ ¬ (c = '\x7d' ∧ (token ++ ['\x7d']).head? = some '\x7d') ∧
      IsToken token := by
  cases token with
  | nil =>
    constructor
    · intro h
      exact ⟨fun hc => h.line (hc ▸ List.mem_cons_self ..), fun hc =>
        h.ending (by rw [hc.1]; rfl), isToken_nil⟩
    · rintro ⟨hline, hclose, -⟩
      refine ⟨by simpa using hline.symm, fun h => ?_,
        fun h => hclose ⟨by simpa using h, rfl⟩⟩
      exact absurd h.length_le (by simp)
  | cons d token =>
    have hlast : (c :: d :: token).getLast? = (d :: token).getLast? :=
      List.getLast?_cons_cons
    have hhead : (d :: token ++ ['\x7d']).head? = some d := rfl
    rw [hhead]
    constructor
    · intro h
      refine ⟨fun hc => h.line (hc ▸ List.mem_cons_self ..), ?_, ?_⟩
      · rintro ⟨rfl, hd⟩
        cases hd
        exact h.nearest ⟨[], token, rfl⟩
      · exact ⟨fun hd => h.line (List.mem_cons_of_mem _ hd), fun hd =>
          h.nearest (hd.trans (List.suffix_cons ..).isInfix),
          hlast ▸ h.ending⟩
    · rintro ⟨hline, hclose, htoken⟩
      refine ⟨fun h => ?_, fun h => ?_, hlast ▸ htoken.ending⟩
      · rcases List.mem_cons.mp h with hc | hd
        · exact hline hc.symm
        · exact htoken.line hd
      · -- two closing braces are those at the beginning, or are in the rest
        rcases List.infix_cons_iff.mp h with hstart | hrest
        · obtain ⟨hc, hd⟩ := List.cons_prefix_cons.mp hstart
          obtain ⟨hd, -⟩ := List.cons_prefix_cons.mp hd
          exact hclose ⟨hc.symm, congrArg some hd.symm⟩
        · exact htoken.nearest hrest

/-! ## Scanning for a token -/

theorem closeToken_cons {c : Char} {rest : List Char}
    (h : ¬ (c = '\x7d' ∧ rest.head? = some '\x7d')) :
    closeToken (c :: rest) = if c = '\n' then none
    else (closeToken rest).map (c :: ·) := by
  rw [closeToken]
  rintro tail rfl rfl
  exact h ⟨rfl, rfl⟩

theorem head?_append_closing (token rest : List Char) :
    (token ++ ['\x7d', '\x7d'] ++ rest).head? = (token ++ ['\x7d']).head? := by
  cases token <;> rfl

/-- The token before the nearest two closing braces is found. -/
theorem closeToken_append {token : List Char} (h : IsToken token)
    (rest : List Char) :
    closeToken (token ++ ['\x7d', '\x7d'] ++ rest) = some token := by
  induction token with
  | nil => rfl
  | cons c token ih =>
    obtain ⟨hline, hclose, htoken⟩ := isToken_cons.mp h
    rw [← head?_append_closing token rest] at hclose
    rw [List.cons_append, List.cons_append, closeToken_cons hclose,
      if_neg hline, ih htoken]
    rfl

/-- What is found is a token, with two closing braces behind it. -/
theorem of_closeToken {cs token : List Char} (h : closeToken cs = some token) :
    IsToken token ∧ ∃ rest, cs = token ++ ['\x7d', '\x7d'] ++ rest := by
  induction cs generalizing token with
  | nil => cases h
  | cons c cs ih =>
    by_cases hclose : c = '\x7d' ∧ cs.head? = some '\x7d'
    · obtain ⟨rfl, hhead⟩ := hclose
      obtain ⟨rest, rfl⟩ := List.head?_eq_some_iff.mp hhead
      cases h
      exact ⟨isToken_nil, rest, rfl⟩
    · rw [closeToken_cons hclose] at h
      split at h
      · cases h
      · next hline =>
        obtain ⟨token, hfound, rfl⟩ := Option.map_eq_some_iff.mp h
        obtain ⟨htoken, rest, rfl⟩ := ih hfound
        rw [head?_append_closing] at hclose
        exact ⟨isToken_cons.mpr ⟨hline, hclose, htoken⟩, rest, rfl⟩

/-- Scanning finds a token exactly if it is one and two closing
braces come behind it. -/
theorem closeToken_eq_some_iff {cs token : List Char} :
    closeToken cs = some token ↔ IsToken token ∧ ∃ rest,
    cs = token ++ ['\x7d', '\x7d'] ++ rest := by
  refine ⟨of_closeToken, ?_⟩
  rintro ⟨htoken, rest, rfl⟩
  exact closeToken_append htoken rest

/-- Where there are two closing braces on the line, a token is found. -/
theorem isSome_closeToken {inner : List Char} (h : '\n' ∉ inner)
    (rest : List Char) :
    (closeToken (inner ++ ['\x7d', '\x7d'] ++ rest)).isSome = true := by
  induction inner with
  | nil => rfl
  | cons c inner ih =>
    obtain ⟨hline, hinner⟩ := List.ne_and_not_mem_of_not_mem_cons h
    by_cases hclose : c = '\x7d' ∧
      (inner ++ ['\x7d', '\x7d'] ++ rest).head? = some '\x7d'
    · obtain ⟨rfl, hhead⟩ := hclose
      obtain ⟨more, hmore⟩ := List.head?_eq_some_iff.mp hhead
      rw [List.cons_append, List.cons_append, hmore]
      rfl
    · rw [List.cons_append, List.cons_append, closeToken_cons hclose,
        if_neg hline.symm, Option.isSome_map]
      exact ih hinner

theorem openToken_braced {token : List Char} (h : IsToken token)
    (rest : List Char) :
    openToken (braced token ++ rest) = some token := closeToken_append h rest

theorem of_openToken {cs token : List Char} (h : openToken cs = some token) :
    IsToken token ∧ ∃ rest, cs = braced token ++ rest := by
  unfold openToken at h
  split at h
  · obtain ⟨htoken, rest, rfl⟩ := of_closeToken h
    exact ⟨htoken, rest, rfl⟩
  · cases h

/-- No placeholder is found exactly if none can start here. -/
theorem openToken_eq_none_iff {cs : List Char} :
    openToken cs = none ↔ ¬ Opens cs := by
  constructor
  · rintro hnone ⟨inner, rest, hline, rfl⟩
    have hsome := isSome_closeToken hline rest
    have hopen : openToken (braced inner ++ rest) =
        closeToken (inner ++ ['\x7d', '\x7d'] ++ rest) := rfl
    rw [← hopen, hnone] at hsome
    cases hsome
  · intro hopens
    cases hfound : openToken cs with
    | none => rfl
    | some token =>
      obtain ⟨htoken, rest, hcs⟩ := of_openToken hfound
      exact absurd ⟨token, rest, htoken.line, hcs⟩ hopens

/-! ## Pieces of a text -/

theorem piecesFrom_drop (skip : Nat) (cs : List Char) :
    piecesFrom skip cs = piecesFrom 0 (cs.drop skip) := by
  induction cs generalizing skip with
  | nil => cases skip <;> rfl
  | cons c cs ih =>
    cases skip with
    | zero => rfl
    | succ skip => exact ih skip

theorem piecesFrom_braced {token : List Char} (h : IsToken token)
    (rest : List Char) :
    piecesFrom 0 (braced token ++ rest) =
    .placeholder token :: piecesFrom 0 rest := by
  have hopen := openToken_braced h rest
  have hcons : braced token ++ rest =
      '\x7b' :: ('\x7b' :: (token ++ ['\x7d', '\x7d'] ++ rest)) := rfl
  rw [hcons] at hopen ⊢
  rw [piecesFrom, hopen]
  dsimp only
  -- past the first brace, the rest of the placeholder is passed over
  rw [piecesFrom_drop, List.drop_succ_cons,
    List.drop_append_of_le_length (by simp), List.drop_eq_nil_of_le (by simp),
    List.nil_append]

theorem piecesFrom_char {c : Char} {rest : List Char} (h : ¬ Opens (c :: rest)) :
    piecesFrom 0 (c :: rest) = .char c :: piecesFrom 0 rest := by
  rw [piecesFrom, openToken_eq_none_iff.mpr h]

/-- A text is empty, or a placeholder starts it, or its first character belongs
to a literal. -/
theorem empty_or_braced_or_char (cs : List Char) :
    cs = [] ∨ (∃ token rest, IsToken token ∧ cs = braced token ++ rest) ∨
    ∃ c rest, cs = c :: rest ∧ ¬ Opens cs := by
  cases cs with
  | nil => exact Or.inl rfl
  | cons c rest =>
    cases hopen : openToken (c :: rest) with
    | none => exact Or.inr (Or.inr ⟨c, rest, rfl, openToken_eq_none_iff.mp hopen⟩)
    | some token =>
      obtain ⟨htoken, after, hcs⟩ := of_openToken hopen
      exact Or.inr (Or.inl ⟨token, after, htoken, hcs⟩)

/-! ## Cuts -/

/-- Literals and the tokens of placeholders by turns. -/
inductive Cut where
  | literal (cs : List Char)
  /-- A literal, then a placeholder, then the rest. -/
  | upTo (cs token : List Char) (rest : Cut)
deriving DecidableEq, Repr

/-- No placeholder could start inside of a literal with this text behind it. -/
def Unopened (literal after : List Char) : Prop :=
  ∀ before rest, literal = before ++ rest → rest ≠ [] → ¬ Opens (rest ++ after)

theorem unopened_nil (after : List Char) : Unopened [] after := by
  intro before rest hsplit hne
  exact absurd (List.append_eq_nil_iff.mp hsplit.symm).2 hne

theorem unopened_cons {c : Char} {literal after : List Char} :
    Unopened (c :: literal) after ↔
    ¬ Opens (c :: (literal ++ after)) ∧ Unopened literal after := by
  constructor
  · intro h
    refine ⟨h [] _ rfl (List.cons_ne_nil _ _), fun before rest hsplit =>
      h (c :: before) rest ?_⟩
    rw [hsplit]
    rfl
  · rintro ⟨hfirst, hothers⟩ before rest hsplit hne
    cases before with
    | nil =>
      cases hsplit
      exact hfirst
    | cons d before => exact hothers before rest (List.cons.inj hsplit).2 hne

namespace Cut

/-- The text that was cut. -/
def text : Cut → List Char
  | literal cs => cs
  | upTo cs token rest => cs ++ (braced token ++ rest.text)

/-- The tokens of the placeholders, from left to right. -/
def tokens : Cut → List (List Char)
  | literal _ => []
  | upTo _ token rest => token :: rest.tokens

/-- The literals with values between them; a placeholder without a value
stays as written. -/
def fill (values : Dict String) : Cut → List Char
  | literal cs => cs
  | upTo cs token rest =>
    cs ++ ((match values.get? (String.ofList token) with
      | some value => value.toList
      | none => braced token) ++ rest.fill values)

/-- Every placeholder is as short as it can be, and none could
have started earlier. -/
def Leftmost : Cut → Prop
  | literal cs => Unopened cs []
  | upTo cs token rest => Unopened cs (braced token ++ rest.text) ∧
    IsToken token ∧ rest.Leftmost

/-- The cut cuts a text at its placeholders. -/
structure Cuts (c : Cut) (text : String) : Prop where
  text : c.text = text.toList
  leftmost : c.Leftmost

/-- Puts characters before the first literal. -/
def prepend (front : List Char) : Cut → Cut
  | literal cs => literal (front ++ cs)
  | upTo cs token rest => upTo (front ++ cs) token rest

@[simp] theorem text_prepend (front : List Char) (c : Cut) :
    (c.prepend front).text = front ++ c.text := by
  cases c with
  | literal cs => rfl
  | upTo cs token rest => exact List.append_assoc ..

@[simp] theorem tokens_prepend (front : List Char) (c : Cut) :
    (c.prepend front).tokens = c.tokens := by
  cases c <;> rfl

@[simp] theorem fill_prepend (values : Dict String) (front : List Char) (c : Cut) :
    (c.prepend front).fill values = front ++ c.fill values := by
  cases c with
  | literal cs => rfl
  | upTo cs token rest => exact List.append_assoc ..

theorem prepend_append (front more : List Char) (c : Cut) :
    c.prepend (front ++ more) = (c.prepend more).prepend front := by
  cases c with
  | literal cs => exact congrArg literal (List.append_assoc ..)
  | upTo cs token rest => exact congrArg (upTo · token rest) (List.append_assoc ..)

theorem leftmost_prepend {d : Char} {c : Cut} :
    (c.prepend [d]).Leftmost ↔ ¬ Opens (d :: c.text) ∧ c.Leftmost := by
  cases c with
  | literal cs =>
    show Unopened (d :: cs) [] ↔ _
    rw [unopened_cons, List.append_nil]
    rfl
  | upTo cs token rest =>
    show Unopened (d :: cs) (braced token ++ rest.text) ∧ _ ↔ _
    rw [unopened_cons, and_assoc]
    rfl

/-- Gathers the characters between placeholders into literals. -/
def ofPieces : List Piece → Cut
  | [] => literal []
  | .char c :: ps => (ofPieces ps).prepend [c]
  | .placeholder token :: ps => upTo [] token (ofPieces ps)

theorem tokens_ofPieces (ps : List Piece) :
    (ofPieces ps).tokens.map String.ofList = ps.filterMap Piece.token? := by
  induction ps with
  | nil => rfl
  | cons p ps ih =>
    cases p with
    | char c =>
      rw [ofPieces, tokens_prepend, ih]
      rfl
    | placeholder token =>
      rw [ofPieces, tokens, List.map_cons, ih]
      rfl

theorem fill_ofPieces (values : Dict String) (ps : List Piece) :
    (ofPieces ps).fill values = ps.flatMap (Piece.fill values) := by
  induction ps with
  | nil => rfl
  | cons p ps ih =>
    cases p with
    | char c =>
      rw [ofPieces, fill_prepend, ih]
      rfl
    | placeholder token =>
      rw [ofPieces, fill, ih, List.flatMap_cons]
      rfl

/-- Scanning loses nothing of a text and opens every placeholder
as early as it can. -/
theorem text_ofPieces (cs : List Char) :
    (ofPieces (piecesFrom 0 cs)).text = cs ∧
    (ofPieces (piecesFrom 0 cs)).Leftmost := by
  induction hn : cs.length using Nat.strongRecOn generalizing cs with
  | ind n ih =>
    rcases empty_or_braced_or_char cs with rfl | ⟨token, rest, htoken, rfl⟩ |
      ⟨c, rest, rfl, hopens⟩
    · exact ⟨rfl, unopened_nil []⟩
    · have hlt : rest.length < n := by
        rw [← hn, List.length_append]
        simp [braced]
      obtain ⟨htext, hleft⟩ := ih _ hlt rest rfl
      rw [piecesFrom_braced htoken, ofPieces]
      exact ⟨congrArg (braced token ++ ·) htext, unopened_nil _, htoken, hleft⟩
    · have hlt : rest.length < n := by
        rw [← hn]
        exact Nat.lt_succ_self _
      obtain ⟨htext, hleft⟩ := ih _ hlt rest rfl
      rw [piecesFrom_char hopens, ofPieces, text_prepend, leftmost_prepend, htext]
      exact ⟨rfl, hopens, hleft⟩

/-- The characters of a literal are not taken for a placeholder. -/
theorem ofPieces_literal {literal after : List Char} (h : Unopened literal after) :
    ofPieces (piecesFrom 0 (literal ++ after)) =
    (ofPieces (piecesFrom 0 after)).prepend literal := by
  induction literal with
  | nil =>
    rw [List.nil_append]
    cases ofPieces (piecesFrom 0 after) <;> rfl
  | cons c literal ih =>
    obtain ⟨hfirst, hothers⟩ := unopened_cons.mp h
    rw [List.cons_append, piecesFrom_char hfirst, ofPieces,
      ih hothers, ← prepend_append]
    rfl

/-- Scanning the text of such a cut gives back the cut. -/
theorem ofPieces_text {c : Cut} (h : c.Leftmost) :
    ofPieces (piecesFrom 0 c.text) = c := by
  induction c with
  | literal cs =>
    have hscan := ofPieces_literal h
    rw [List.append_nil] at hscan
    rw [text, hscan]
    exact congrArg literal (List.append_nil cs)
  | upTo cs token rest ih =>
    obtain ⟨hliteral, htoken, hrest⟩ := h
    rw [text, ofPieces_literal hliteral, piecesFrom_braced htoken,
      ofPieces, ih hrest]
    exact congrArg (upTo · token rest) (List.append_nil cs)

end Cut

/-- The cut that scanning makes. -/
def cut (text : String) : Cut := Cut.ofPieces (pieces text)

theorem cuts_cut (text : String) : (cut text).Cuts text := by
  obtain ⟨htext, hleft⟩ := Cut.text_ofPieces text.toList
  exact ⟨htext, hleft⟩

theorem Cut.Cuts.eq_cut {c : Cut} {text : String} (h : c.Cuts text) :
    c = cut text := by
  have hscan := Cut.ofPieces_text h.leftmost
  rw [h.text] at hscan
  exact hscan.symm

/-! ## Tokens and filling -/

theorem firsts_filter (p : String → Bool) (l : List String) :
    firsts (l.filter p) = (firsts l).filter p := by
  induction l with
  | nil => rfl
  | cons x l ih =>
    by_cases hx : p x = true
    · rw [List.filter_cons_of_pos hx, firsts, firsts, ih,
        List.filter_cons_of_pos hx, List.filter_filter, List.filter_filter]
      exact congrArg (x :: ·) (List.filter_congr fun y _ => Bool.and_comm ..)
    · rw [List.filter_cons_of_neg hx, firsts, ih, List.filter_cons_of_neg hx,
        List.filter_filter]
      refine List.filter_congr fun y _ => ?_
      -- what satisfies `p` is not the item that does not
      by_cases hy : p y = true
      · have hne : y ≠ x := fun heq => hx (heq ▸ hy)
        simp [hy, hne]
      · simp [hy]

/-- Keeping the first of equal items is dropping all that were there before. -/
theorem firsts_eq_eraseDups (l : List String) : firsts l = l.eraseDups := by
  induction hn : l.length using Nat.strongRecOn generalizing l with
  | ind n ih =>
    cases l with
    | nil => rfl
    | cons x l =>
      have hlt : (l.filter fun y => !y == x).length < n := by
        rw [← hn]
        exact Nat.lt_succ_of_le (List.length_filter_le ..)
      rw [List.eraseDups_cons, ← ih _ hlt _ rfl, firsts_filter, firsts]
      exact congrArg (x :: ·) (List.filter_congr
        fun y _ => by rw [beq_eq_decide, decide_not])

/-- **There is one way to cut a text at its placeholders.** The tokens of the
text are the distinct tokens of that cut in the order of their first
occurrences. Filling the text puts the values of the tokens between the literals
of the cut, and only these values matter; what has no value stays as written. -/
theorem cut_at_placeholders (text : String) :
    ∃ c : Cut, c.Cuts text ∧ (∀ other : Cut, other.Cuts text → other = c) ∧
    tokens text = (c.tokens.map String.ofList).eraseDups ∧
    (∀ values, fill text values = String.ofList (c.fill values)) ∧
    ∀ values values' : Dict String,
      (∀ token ∈ tokens text, values.get? token = values'.get? token) →
      fill text values = fill text values' := by
  refine ⟨cut text, cuts_cut text, fun other hother =>
    hother.eq_cut, ?_, fun values => ?_, fun values values' hsame => ?_⟩
  · rw [cut, Cut.tokens_ofPieces, ← firsts_eq_eraseDups]
    rfl
  · rw [cut, Cut.fill_ofPieces]
    rfl
  · unfold fill
    congr 1
    refine List.flatMap_congr fun piece hpiece => ?_
    cases piece with
    | char c => rfl
    | placeholder token => rw [Piece.fill, Piece.fill, hsame _ (mem_tokens hpiece)]

end Playbook.Template
