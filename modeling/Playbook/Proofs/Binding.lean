import Mathlib.Data.List.Infix
import Mathlib.Data.List.TakeWhile
import Playbook.Binding
import Playbook.Proofs.Text

/-!
# Playbook — tokens and the bindings they are read as

A token is read by deleting every marker `[]` in one scan and cutting what is
left at its first colon. The scan does not look back: a marker that only comes
about when those between its two brackets are gone stays where it is. So a name
can hold a marker after all, and so can a format, exactly if markers stood
between two brackets of the token.

Main results:

* `Binding.parse_eq` — what stands before the first colon is the name and what
  follows it the role, each without its markers.
* `Binding.infix_eraseMarkers_iff` — a marker is left over exactly if markers
  stand between two brackets.
* `Binding.reparse_unless_nested` — names are free of markers, and bindings are
  read again as they are, for exactly the tokens in which no markers stand
  between two brackets.
-/

namespace Playbook

namespace Binding

/-- The marker of a variable that drives a batch. -/
def marker : List Char := ['[', ']']

/-- So many markers in a row. -/
def markers (n : Nat) : List Char := (List.replicate n marker).flatten

/-- Somewhere in the text, one or more markers stand between two brackets. -/
def Nested (cs : List Char) : Prop := ∃ n, '[' :: (markers (n + 1) ++ [']']) <:+: cs

theorem Nested.cons {cs : List Char} (h : Nested cs) (c : Char) :
    Nested (c :: cs) := by
  obtain ⟨n, hinfix⟩ := h
  exact ⟨n, List.infix_cons hinfix⟩

theorem marker_infix_cons {c : Char} {cs : List Char} :
    marker <:+: c :: cs ↔ (c = '[' ∧ ∃ rest, cs = ']' :: rest) ∨
    marker <:+: cs := by
  rw [List.infix_cons_iff, marker, List.cons_prefix_cons, eq_comm (a := '[')]
  refine or_congr (and_congr_right fun _ => ?_) Iff.rfl
  exact exists_congr fun rest => eq_comm

/-- A marker does not extend over a colon. -/
theorem marker_infix_append_colon {front rest : List Char} :
    marker <:+: front ++ ':' :: rest ↔ marker <:+: front ∨ marker <:+: rest := by
  induction front with
  | nil =>
    rw [List.nil_append, marker_infix_cons, List.infix_nil]
    refine or_congr (iff_of_false ?_ (List.cons_ne_nil _ _)) Iff.rfl
    rintro ⟨hcolon, -⟩
    cases hcolon
  | cons c front ih =>
    rw [List.cons_append, marker_infix_cons, marker_infix_cons, ih, or_assoc]
    refine or_congr (and_congr_right fun _ => ?_) Iff.rfl
    cases front with
    | nil => exact iff_of_false (fun ⟨_, h⟩ => by cases h) fun ⟨_, h⟩ => by cases h
    | cons d front =>
      exact ⟨fun ⟨_, h⟩ => ⟨front, by rw [(List.cons.inj h).1]⟩, fun ⟨_, h⟩ =>
        ⟨_, by rw [h, List.cons_append]⟩⟩

/-! ## What the scan leaves -/

theorem eraseMarkers_markers (n : Nat) (rest : List Char) :
    eraseMarkers (markers n ++ rest) = eraseMarkers rest := by
  induction n with
  | zero => rfl
  | succ n ih => exact ih

theorem eraseMarkers_cons {c : Char} {rest : List Char}
    (h : ¬(c = '[' ∧ ∃ more, rest = ']' :: more)) :
    eraseMarkers (c :: rest) = c :: eraseMarkers rest := by
  rw [eraseMarkers]
  rintro more rfl rfl
  exact h ⟨rfl, more, rfl⟩

/-- The scan goes over two parts of a text on their own, if no marker can end at
the beginning of the second. -/
theorem eraseMarkers_append_cons {c : Char} (hc : c ≠ ']')
    (front rest : List Char) :
    eraseMarkers (front ++ c :: rest) = eraseMarkers
      front ++ eraseMarkers (c :: rest) := by
  induction front using eraseMarkers.induct with
  | case1 => rfl
  | case2 front ih => exact ih
  | case3 d front hplain ih =>
    have hd : ¬(d = '[' ∧ ∃ more, front ++ c :: rest = ']' :: more) := by
      rintro ⟨rfl, more, h⟩
      cases front with
      | nil => exact hc (List.cons.inj h).1
      | cons e front =>
        obtain ⟨rfl, -⟩ := List.cons.inj h
        exact hplain front rfl rfl
    have hd' : ¬(d = '[' ∧ ∃ more, front = ']' :: more) :=
      fun ⟨h, more, hmore⟩ => hplain more h hmore
    rw [List.cons_append, eraseMarkers_cons hd, eraseMarkers_cons hd', ih,
      List.cons_append]

theorem eraseMarkers_sublist (cs : List Char) : (eraseMarkers cs).Sublist cs := by
  induction cs using eraseMarkers.induct with
  | case1 => exact List.Sublist.refl _
  | case2 rest ih => exact (ih.cons _).cons _
  | case3 c rest hplain ih =>
    rw [eraseMarkers_cons fun ⟨h, more, hmore⟩ => hplain more h hmore]
    exact ih.cons_cons c

/-- If what is left begins with a closing bracket, so did the text behind its
leading markers. -/
theorem exists_markers_of_eraseMarkers_eq {cs left : List Char}
    (h : eraseMarkers cs = ']' :: left) :
    ∃ n rest, cs = markers n ++ ']' :: rest := by
  induction cs using eraseMarkers.induct with
  | case1 => cases h
  | case2 rest ih =>
    obtain ⟨n, more, rfl⟩ := ih h
    exact ⟨n + 1, more, rfl⟩
  | case3 c rest hplain =>
    rw [eraseMarkers_cons fun ⟨h, more, hmore⟩ => hplain more h hmore] at h
    obtain ⟨rfl, -⟩ := List.cons.inj h
    exact ⟨0, rest, rfl⟩

/-- A marker is left over exactly if markers stand between two
brackets of the text. -/
theorem infix_eraseMarkers_iff {cs : List Char} :
    marker <:+: eraseMarkers cs ↔ Nested cs := by
  constructor
  · intro h
    induction cs using eraseMarkers.induct with
    | case1 => exact absurd (List.infix_nil.mp h) (List.cons_ne_nil _ _)
    | case2 rest ih => exact ((ih h).cons _).cons _
    | case3 c rest hplain ih =>
      rw [eraseMarkers_cons fun ⟨h, more, hmore⟩ => hplain more h hmore] at h
      rcases marker_infix_cons.mp h with ⟨rfl, left, hleft⟩ | hrest
      · -- the two brackets meet because what stood between them is gone
        obtain ⟨n, more, rfl⟩ := exists_markers_of_eraseMarkers_eq hleft
        cases n with
        | zero => exact absurd rfl (hplain more rfl)
        | succ n =>
          exact ⟨n, [],
            more, by rw [List.nil_append, List.cons_append, List.append_assoc]; rfl⟩
      · exact (ih hrest).cons c
  · rintro ⟨n, before, after, rfl⟩
    have hinner : eraseMarkers ('[' :: (markers (n + 1) ++ [']'] ++ after)) =
        marker ++ eraseMarkers after := by
      have hopen : eraseMarkers ('[' :: (markers (n + 1) ++ [']'] ++ after)) =
          '[' :: eraseMarkers (markers (n + 1) ++ [']'] ++ after) :=
        eraseMarkers_cons fun ⟨_, _, h⟩ => by cases h
      have hclose : eraseMarkers (']' :: after) = ']' :: eraseMarkers after :=
        eraseMarkers_cons fun ⟨h, _⟩ => by cases h
      rw [hopen, List.append_assoc, eraseMarkers_markers,
        List.singleton_append, hclose]
      rfl
    rw [List.append_assoc, List.cons_append,
      eraseMarkers_append_cons (by decide), hinner]
    exact List.infix_append' _ _ _

theorem marker_infix_of_eraseMarkers {cs : List Char}
    (h : marker <:+: eraseMarkers cs) : marker <:+: cs := by
  obtain ⟨n, hnested⟩ := infix_eraseMarkers_iff.mp h
  exact List.IsInfix.trans ⟨['['], markers n ++ [']'], rfl⟩ hnested

/-- The scan changes a text exactly if there is a marker in it. -/
theorem eraseMarkers_eq_self_iff {cs : List Char} :
    eraseMarkers cs = cs ↔ ¬ marker <:+: cs := by
  constructor
  · rintro h ⟨before, after, rfl⟩
    -- the marker is deleted and nothing is added, so less is left
    have hlength := congrArg List.length h
    have hshort := (eraseMarkers_sublist after).length_le
    have hfront := (eraseMarkers_sublist before).length_le
    rw [List.append_assoc, marker, List.cons_append,
      eraseMarkers_append_cons (by decide)] at hlength
    simp only [List.length_append, List.length_cons, eraseMarkers,
      List.cons_append, List.nil_append] at hlength
    omega
  · intro h
    induction cs with
    | nil => rfl
    | cons c cs ih =>
      obtain ⟨hc, hcs⟩ := not_or.mp (marker_infix_cons.not.mp h)
      rw [eraseMarkers_cons hc, ih hcs]

/-! ## Reading -/

/-- What stands before the first colon. -/
def nameText (cs : List Char) : List Char := cs.takeWhile (· ≠ ':')

/-- What follows the first colon; nothing, if there is none. -/
def roleText (cs : List Char) : List Char := (cs.dropWhile (· ≠ ':')).tail

theorem colon_not_mem_nameText (cs : List Char) : ':' ∉ nameText cs := by
  intro h
  have hpasses := List.mem_takeWhile_imp h
  exact of_decide_eq_true hpasses rfl

/-- A text is its name, or its name, a colon and its role. -/
theorem nameText_append_roleText (cs : List Char) :
    (cs = nameText cs ∧ roleText cs = []) ∨
    cs = nameText cs ++ ':' :: roleText cs := by
  have happend : cs = nameText cs ++ cs.dropWhile (· ≠ ':') :=
    List.takeWhile_append_dropWhile.symm
  cases hrest : cs.dropWhile (· ≠ ':') with
  | nil =>
    rw [hrest, List.append_nil] at happend
    exact Or.inl ⟨happend, congrArg List.tail hrest⟩
  | cons c rest =>
    have hcolon : c = ':' := by
      have hhead := List.head?_dropWhile_not (· ≠ ':') cs
      rw [hrest] at hhead
      simpa using hhead
    rw [hrest, hcolon] at happend
    exact Or.inr
      (happend.trans (congrArg (fun role => nameText cs ++ ':' :: role)
        (congrArg List.tail hrest).symm))

theorem nameText_append_colon {name : List Char} (h : ':' ∉ name)
    (role : List Char) :
    nameText (name ++ ':' :: role) = name ∧
    roleText (name ++ ':' :: role) = role := by
  have hname : ∀ c ∈ name, decide (c ≠ ':') = true :=
    fun c hc => decide_eq_true fun heq => h (heq ▸ hc)
  constructor
  · rw [nameText, List.takeWhile_append_of_pos hname]
    exact List.append_nil name
  · rw [roleText, List.dropWhile_append_of_pos hname]
    rfl

theorem colon_not_mem_eraseMarkers {cs : List Char} (h : ':' ∉ cs) :
    ':' ∉ eraseMarkers cs :=
  fun hmem => h ((eraseMarkers_sublist cs).subset hmem)

/-- A token is read as what stands before its first colon and what follows it,
each without its markers. -/
theorem parse_eq (token : String) :
    parse token =
    { token, name := String.ofList (eraseMarkers (nameText token.toList)),
                    role :=
                      Role.parse
                        (String.ofList (eraseMarkers (roleText token.toList))),
                    isArray := Text.occurs marker token.toList } := by
  have hname := colon_not_mem_eraseMarkers (colon_not_mem_nameText token.toList)
  rcases nameText_append_roleText token.toList with ⟨hall, hrole⟩ | hall
  · have hsplit := Text.splitFirst_of_not_mem hname
    rw [← hall] at hsplit
    rw [← hall, hrole]
    simp only [parse, hsplit]
    rfl
  · have hbare : eraseMarkers token.toList =
        eraseMarkers (nameText token.toList) ++ ':' :: eraseMarkers
          (roleText token.toList) := by
      conv_lhs => rw [hall, eraseMarkers_append_cons (by decide),
        eraseMarkers_cons fun ⟨h, _⟩ => by cases h]
    have hsplit := Text.splitFirst_append hname
        (eraseMarkers (roleText token.toList))
    rw [← hbare] at hsplit
    simp only [parse, hsplit]
    rfl

theorem token_parse (token : String) :
    (parse token).token = token := by rw [parse_eq]

theorem marker_infix_iff (cs : List Char) :
    marker <:+: cs ↔ marker <:+: nameText cs ∨ marker <:+: roleText cs := by
  rcases nameText_append_roleText cs with ⟨hall, hrole⟩ | hall
  · rw [hrole, ← hall, List.infix_nil]
    exact (or_iff_left (List.cons_ne_nil _ _)).symm
  · conv_lhs => rw [hall]
    exact marker_infix_append_colon

/-- Markers stand between two brackets of a token exactly if they do so in its
name or in its role. -/
theorem nested_iff (cs : List Char) :
    Nested cs ↔ Nested (nameText cs) ∨ Nested (roleText cs) := by
  simp only [← infix_eraseMarkers_iff]
  rcases nameText_append_roleText cs with ⟨hall, hrole⟩ | hall
  · rw [hrole, ← hall]
    exact (or_iff_left fun h => List.cons_ne_nil _ _ (List.infix_nil.mp h)).symm
  · conv_lhs => rw [hall, eraseMarkers_append_cons (by decide), eraseMarkers_cons
  fun ⟨h, _⟩ => by cases h]
    exact marker_infix_append_colon

/-! ## Reading again -/

/-- The binding as a token again. -/
def written (b : Binding) : String :=
  String.ofList (b.name.toList ++ (if b.isArray then marker
    else []) ++ ':' :: b.role.text.toList)

/-- A role is one of the known words, or the format that it says. -/
theorem role_known_or_format (text : String) :
    text ∈ ["", "object", "plain", "declare_output", "declare_file_output"] ∨
    Role.parse text = .format text := by
  by_cases hplain : text ∈ ["", "object", "plain"]
  · exact Or.inl (List.mem_append_left
      ["declare_output", "declare_file_output"] hplain)
  · by_cases houtput : text = "declare_output"
    · exact Or.inl (by rw [houtput]; decide)
    · by_cases hfile : text = "declare_file_output"
      · exact Or.inl (by rw [hfile]; decide)
      · exact Or.inr
          (by rw [Role.parse, if_neg hplain, if_neg houtput, if_neg hfile])

theorem eq_of_parse_eq_format {text name : String}
    (h : Role.parse text = .format name) : text = name := by
  rcases role_known_or_format text with hknown | hformat
  · simp only [List.mem_cons, List.not_mem_nil, or_false] at hknown
    rcases hknown with rfl | rfl | rfl | rfl | rfl <;> cases h
  · exact Role.format.inj (hformat.symm.trans h)

/-- A role that was read is read again as it is, if the scan
finds no marker in it. -/
theorem parse_role_text_iff (text : List Char) :
    Role.parse
      (String.ofList
        (eraseMarkers (Role.parse (String.ofList text)).text.toList)) =
        Role.parse (String.ofList text) ↔
      ¬ marker <:+: text := by
  rcases role_known_or_format (String.ofList text) with hknown | hformat
  · have hword (word : String) (h : String.ofList text = word) : text =
        word.toList := by rw [← h, String.toList_ofList]
    simp only [List.mem_cons, List.not_mem_nil, or_false] at hknown
    rcases hknown with h | h | h | h | h <;> rw [hword _ h] <;> decide
  · rw [hformat, Role.text, String.toList_ofList, ← eraseMarkers_eq_self_iff]
    refine ⟨fun h => String.ofList_injective (eq_of_parse_eq_format h), fun h => ?_⟩
    rw [h, hformat]

/-- A role is written without a marker if there was none in the text
it was read from. -/
theorem marker_infix_of_role_text {text : List Char}
    (h : marker <:+: (Role.parse (String.ofList text)).text.toList) :
    marker <:+: text := by
  rcases role_known_or_format (String.ofList text) with hknown | hformat
  · simp only [List.mem_cons, List.not_mem_nil, or_false] at hknown
    rcases hknown with hword | hword | hword | hword | hword <;> rw [hword] at h <;>
      exact absurd h (by decide)
  · rw [hformat, Role.text, String.toList_ofList] at h
    exact h

/-- How a binding that is written is read: each of its parts is
scanned once more. -/
theorem parse_written (b : Binding) (h : ':' ∉ b.name.toList) :
    (parse b.written).name = String.ofList (eraseMarkers b.name.toList) ∧
      (parse b.written).role = Role.parse
        (String.ofList (eraseMarkers b.role.text.toList)) ∧
      ((parse b.written).isArray = true ↔
        b.isArray = true ∨ marker <:+: b.name.toList ∨
        marker <:+: b.role.text.toList) := by
  have hcolon : ':' ∉ b.name.toList ++ (if b.isArray then marker else []) := by
    rw [List.mem_append, not_or]
    exact ⟨h, by split <;> decide⟩
  obtain ⟨hname, hrole⟩ := nameText_append_colon hcolon b.role.text.toList
  have hscan : eraseMarkers (b.name.toList ++ (if b.isArray then marker
      else [])) = eraseMarkers b.name.toList := by
    split
    · exact (eraseMarkers_append_cons (by decide) _ _).trans (List.append_nil _)
    · rw [List.append_nil]
  rw [parse_eq]
  simp only [written, String.toList_ofList, hname, hrole, hscan, true_and]
  rw [Text.occurs_eq_true, marker_infix_append_colon, ← or_assoc]
  refine or_congr ?_ Iff.rfl
  cases b.isArray with
  | false =>
    exact (iff_of_eq (congrArg _ (List.append_nil _))).trans
      (or_iff_right Bool.false_ne_true).symm
  | true => exact iff_of_true (List.suffix_append _ _).isInfix (Or.inl rfl)

/-- Bindings that differ in their tokens only agree in everything else. -/
theorem eq_with_token_iff {b c : Binding} {token : String} (h : c.token = token) :
    c = { b with token } ↔ c.name = b.name ∧ c.role = b.role ∧
    c.isArray = b.isArray := by
  cases b
  cases c
  cases h
  simp only [mk.injEq, true_and]

/-- **A token keeps no markers, and is read again as it was, unless markers
stand between two of its brackets.** The name never has a colon in it, and
whether the variable drives a batch is always read again. A marker is left in
the name exactly if markers stand between two brackets in what precedes the
first colon of the token, and then the name is read again as another one; the
role is read again as another one exactly if they do so behind that colon. So
both hold of a token exactly if no markers stand between two of its brackets. -/
theorem reparse_unless_nested (token : String) :
    ':' ∉ (parse token).name.toList ∧
      (parse (parse token).written).isArray = (parse token).isArray ∧
      (Text.occurs marker (parse token).name.toList = true ↔
        Nested (nameText token.toList)) ∧
      ((parse (parse token).written).name = (parse token).name ↔
        ¬ Nested (nameText token.toList)) ∧
      ((parse (parse token).written).role = (parse token).role ↔
        ¬ Nested (roleText token.toList)) ∧
      (Text.occurs marker (parse token).name.toList = false ∧
          parse (parse token).written =
          { parse token with token := (parse token).written } ↔
        ¬ Nested token.toList) := by
  have hparse := parse_eq token
  have hcolon : ':' ∉ (parse token).name.toList := by
    rw [hparse, String.toList_ofList]
    exact colon_not_mem_eraseMarkers (colon_not_mem_nameText _)
  obtain ⟨hname, hrole, harray⟩ := parse_written (parse token) hcolon
  have hkept : Text.occurs marker (parse token).name.toList = true ↔
      Nested (nameText token.toList) := by
    rw [Text.occurs_eq_true, hparse, String.toList_ofList, infix_eraseMarkers_iff]
  have hsameName : (parse (parse token).written).name = (parse token).name ↔
      ¬ Nested (nameText token.toList) := by
    rw [hname, ← String.toList_inj, String.toList_ofList,
      eraseMarkers_eq_self_iff, ← Text.occurs_eq_true, hkept]
  have hsameRole : (parse (parse token).written).role = (parse token).role ↔
      ¬ Nested (roleText token.toList) := by
    rw [hrole, hparse, parse_role_text_iff, infix_eraseMarkers_iff]
  have hsameArray : (parse (parse token).written).isArray =
      (parse token).isArray := by
    rw [Bool.eq_iff_iff, harray]
    refine or_iff_left_of_imp fun h => ?_
    rw [hparse, String.toList_ofList] at h
    rw [hparse, Text.occurs_eq_true, marker_infix_iff]
    exact h.imp marker_infix_of_eraseMarkers fun hrole =>
      marker_infix_of_eraseMarkers (marker_infix_of_role_text hrole)
  refine ⟨hcolon, hsameArray, hkept, hsameName, hsameRole, ?_⟩
  rw [eq_with_token_iff (token_parse _), hsameName, hsameRole,
    nested_iff token.toList, not_or, ← Bool.not_eq_true, hkept]
  exact ⟨fun h => h.2.imp_right And.left, fun h => ⟨h.1, h.1, h.2, hsameArray⟩⟩

/-- The marker between two brackets is deleted, the brackets become one, and the
next reading deletes that. -/
theorem marker_in_brackets :
    (parse "x[[]]").name = "x[]" ∧ (parse "x[[]]").written = "x[][]:plain" ∧
      (parse "x[][]:plain").name = "x" ∧
      ¬(Text.occurs marker (parse "x[[]]").name.toList = false ∧
        ':' ∉ (parse "x[[]]").name.toList ∧
        (parse (parse "x[[]]").written).name = (parse "x[[]]").name) := by
  decide +kernel

end Binding

end Playbook
