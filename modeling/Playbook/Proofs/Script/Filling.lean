import Playbook.Runner.Script
import Playbook.Proofs.Prototype
import Playbook.Proofs.World

/-!
# Playbook — what is filled into a script

Before a script is written, paths are put into the arguments, and the arguments
are rendered: those that all jobs of a call share once, the element of a batch
with its own paths for each job. This module says what stands under each name
after these steps, in terms of names alone.

Main results:

* `ScriptRunner.run_nameFiles` — the arguments after the paths of
  output files were put in.
* `ScriptRunner.get?_renderShared` — the text of a shared argument is its rendering.
* `ScriptRunner.get?_elementTexts`, `ScriptRunner.get?_elementArgs` — the texts
  and the arguments of an element.
-/

namespace Playbook

open Effect

theorem Act.run_uniquePath (dir stem extension : String) (w : World) :
    (Act.uniquePath dir stem extension).run w =
      (.ok (Path.unique dir stem extension (Token.ofNat w.tokens)),
        { w with tokens := w.tokens + 1 }) := rfl

namespace ScriptRunner

/-! ## Arguments -/

/-- Naming files takes a fresh name for each of them and does nothing else. The
variables that name files have paths with these names, in their order, and all
others are left. -/
theorem run_nameFiles (dir : String) (bs : List Binding) (args : Args) (w : World) :
    ∃ named, (nameFiles dir bs args).run w =
      (.ok named, { w with tokens := w.tokens + bs.length }) ∧
      (∀ name, (∀ b ∈ bs, b.name ≠ name) → named.get? name = args.get? name) ∧
      ∀ b ∈ bs, ∃ k, (bs.map (·.name))[k]? = some b.name ∧
        named.get? b.name = some (.ofText
          (Path.unique dir b.name "npz" (Token.ofNat (w.tokens + k)))) := by
  induction bs generalizing args w with
  | nil => exact ⟨args, rfl, fun _ _ => rfl, fun b hb => by cases hb⟩
  | cons b bs ih =>
    let path := Path.unique dir b.name "npz" (Token.ofNat w.tokens)
    obtain ⟨named, hrun, hothers, hnamed⟩ :=
      ih (args.insert b.name (.ofText path)) { w with tokens := w.tokens + 1 }
    refine ⟨named, ?_, ?_, ?_⟩
    · rw [nameFiles, run_bind, Act.run_uniquePath]
      refine hrun.trans ?_
      rw [List.length_cons, Nat.add_right_comm, Nat.add_assoc]
    · intro name hname
      have hhead : b.name ≠ name := hname b (List.mem_cons_self ..)
      rw [hothers name fun c hc => hname c (List.mem_cons_of_mem _ hc),
        Dict.get?_insert, if_neg hhead]
    · intro c hc
      by_cases hlater : ∃ d ∈ bs, d.name = c.name
      -- a later variable of the same name is given the path that stays
      · obtain ⟨d, hd, hname⟩ := hlater
        obtain ⟨k, hk, hget⟩ := hnamed d hd
        rw [hname] at hk hget
        refine ⟨k + 1, hk, ?_⟩
        rw [hget, Nat.add_right_comm, Nat.add_assoc]
      · have hhead : c = b := by
          rcases List.mem_cons.mp hc with heq | hrest
          · exact heq
          · exact absurd ⟨c, hrest, rfl⟩ hlater
        subst hhead
        refine ⟨0, rfl, ?_⟩
        rw [hothers c.name fun d hd heq =>
          hlater ⟨d, hd, heq⟩, Dict.get?_insert, if_pos rfl]
        rfl

/-- No variable is missing after the arguments have been checked. -/
theorem contains_of_validate {r : ScriptRunner} {args : Args} {w w' : World}
    (h : (r.validate args).run w = (.ok (), w')) {name : String}
    (hname : r.prototype.bindings.contains name = true) :
    args.contains name = true := by
  unfold validate at h
  split at h
  · next hmissing =>
    have hkey := Dict.contains_eq_true.mp hname
    have hthere := List.filter_eq_nil_iff.mp hmissing name hkey
    simpa using hthere
  · cases h

/-- Arguments among which no variable is missing pass the check. -/
theorem run_validate {r : ScriptRunner} {args : Args}
    (h : ∀ name, r.prototype.bindings.contains name = true →
      args.contains name = true) (w : World) :
    ∃ w', (r.validate args).run w = (.ok (), w') := by
  have hmissing : (r.prototype.bindings.keys.filter fun name =>
      !args.contains name) = [] := by
    refine List.filter_eq_nil_iff.mpr fun name hname => ?_
    simpa using h name (Dict.contains_eq_true.mpr hname)
  unfold validate
  rw [hmissing]
  dsimp only
  -- the warnings about arguments that are not used end nothing
  have hwarns : ∃ w', (forIn args.keys PUnit.unit fun name _ => (do
      if r.prototype.bindings.contains name =
        true then pure (ForInStep.yield PUnit.unit)
      else do
        Act.warn "argument is not used by the prototype"
          [⟨"runner", r.name, false⟩, ⟨"variable", name, false⟩]
        pure (ForInStep.yield PUnit.unit) : Act (ForInStep PUnit))).run w =
          (.ok PUnit.unit, w') := by
    refine run_forIn_ok args.keys (fun name w => ?_) w
    by_cases hused : r.prototype.bindings.contains name = true
    · exact ⟨w, by rw [if_pos hused]; rfl⟩
    · exact ⟨_, by rw [if_neg hused]; rfl⟩
  obtain ⟨w', hwarns⟩ := hwarns
  exact ⟨w', by rw [run_bind, hwarns]; rfl⟩

/-! ## Texts -/

/-- The text of a shared argument is what rendering the argument gave. -/
theorem get?_renderShared {calls : Calls} {bindings : Dict Binding}
    {args : Args} {w w' : World} {shared : Dict String}
    (h : (renderShared calls bindings args).run w = (.ok shared, w'))
    {name : String} {b : Binding} {value : Value}
    (hb : bindings.get? name = some b) (harray : b.isArray = false)
    (hvalue : args.get? name = some value) :
    ∃ text w₁ w₂, shared.get? name = some text ∧
      (renderValue calls b.role.exportFormat value).run w₁ = (.ok text, w₂) := by
  induction args generalizing w shared with
  | nil => cases hvalue
  | cons entry rest ih =>
    obtain ⟨key, first⟩ := entry
    rw [renderShared] at h
    by_cases hkey : key = name
    · subst hkey
      rw [Dict.get?, if_pos rfl] at hvalue
      cases hvalue
      rw [hb] at h
      dsimp only at h
      rw [harray, if_neg Bool.false_ne_true] at h
      obtain ⟨text, w₁, htext, h⟩ := run_bind_ok h
      obtain ⟨texts, w₂, -, h⟩ := run_bind_ok h
      cases h
      exact ⟨text, w, w₁, by rw [Dict.get?, if_pos rfl], htext⟩
    · rw [Dict.get?, if_neg hkey] at hvalue
      -- the argument before it may be rendered or not
      cases hother : bindings.get? key with
      | none =>
        rw [hother] at h
        exact ih h hvalue
      | some c =>
        rw [hother] at h
        dsimp only at h
        split at h
        · exact ih h hvalue
        · obtain ⟨text, w₁, -, h⟩ := run_bind_ok h
          obtain ⟨texts, w₂, hrest, h⟩ := run_bind_ok h
          cases h
          obtain ⟨found, w₃, w₄, hfound, hrender⟩ := ih hrest hvalue
          exact ⟨found, w₃, w₄, by rw [Dict.get?, if_neg hkey, hfound], hrender⟩

theorem run_renderValue_ofText (calls : Calls) (format text : String) (w : World) :
    (renderValue calls format (.ofText text)).run w = (.ok text, w) := rfl

end ScriptRunner

/-! ## Elements -/

/-- Whether a variable stands for a path that the run makes up: that of the
sentinel or of an output file. -/
def Prototype.isPath (p : Prototype) (name : String) : Bool :=
  name == touchfile || p.fileOutputs.any (·.name == name)

theorem Prototype.isPath_touchfile (p : Prototype) : p.isPath touchfile = true := by
  unfold isPath
  rw [beq_self_eq_true, Bool.true_or]

theorem Prototype.isPath_of_mem {p : Prototype} {b : Binding}
    (h : b ∈ p.fileOutputs) : p.isPath b.name = true := by
  have hany : p.fileOutputs.any (·.name == b.name) = true :=
    List.any_eq_true.mpr ⟨b, h, beq_self_eq_true _⟩
  unfold isPath
  rw [hany, Bool.or_true]

theorem Dict.get?_foldl_insert {α : Type} (bs : List Binding) (f : String → α)
    (d : Dict α) (name : String) :
    (bs.foldl (fun acc b => acc.insert b.name (f b.name)) d).get? name =
      if bs.any (·.name == name) = true then some (f name) else d.get? name := by
  induction bs generalizing d with
  | nil => rfl
  | cons b bs ih =>
    rw [List.foldl_cons, ih, List.any_cons, Dict.get?_insert]
    by_cases hb : b.name = name
    · simp [hb]
    · simp [hb]

/-- What stands under a name when the paths that the run makes up and one more
value are written over a dictionary. -/
theorem Prototype.get?_overlay {α : Type} (p : Prototype) (f : String → α)
    (d : Dict α) (variableName : String) (own : α) (name : String) :
    ((p.fileOutputs.foldl (fun acc b => acc.insert b.name (f b.name))
      (d.insert touchfile (f touchfile))).insert variableName own).get? name =
      if name = variableName then some own
          else if p.isPath name then some (f name) else d.get? name := by
  rw [Dict.get?_insert, Dict.get?_foldl_insert, Dict.get?_insert]
  unfold isPath
  by_cases hv : variableName = name
  · rw [if_pos hv, if_pos hv.symm]
  have hv' : ¬ name = variableName := fun h => hv h.symm
  rw [if_neg hv, if_neg hv']
  by_cases hout : p.fileOutputs.any (·.name == name) = true
  · rw [if_pos hout, hout, Bool.or_true, if_pos rfl]
  rw [if_neg hout, Bool.eq_false_iff.mpr hout, Bool.or_false]
  by_cases ht : touchfile = name
  · rw [if_pos ht, ← ht, if_pos (beq_self_eq_true touchfile)]
  · rw [if_neg ht, if_neg (by simpa using fun h => ht h.symm)]

namespace ScriptRunner

/-- The text for a name in the script of an element: its own text for the
variable of the batch, the paths that are made up with its index, and otherwise
the text that all scripts share. -/
def elementText (r : ScriptRunner) (variableName : String) (args : Args)
    (shared : Dict String) (index : Nat) (own name : String) : String :=
  if name = variableName then own
  else if r.prototype.isPath name then indexedPath args name index
  else (shared.get? name).getD ""

/-- The value under a name for an element: itself for the variable of the batch, the
paths that are made up with its index, and otherwise the value of the caller. -/
def elementValue (r : ScriptRunner) (variableName : String) (args : Args)
    (index : Nat) (element : Value) (name : String) : Value :=
  if name = variableName then element
  else if r.prototype.isPath name then .ofText (indexedPath args name index)
  else (args.get? name).getD .null

theorem get?_elementTexts (r : ScriptRunner) (variableName : String)
    (args : Args) (shared : Dict String) (index : Nat) (own name : String) :
    (r.elementTexts variableName args shared index own).get? name =
      if name = variableName then some own
      else if r.prototype.isPath name then some (indexedPath args name index)
      else shared.get? name :=
  r.prototype.get?_overlay (indexedPath args · index) shared variableName own name

theorem get?_elementArgs (r : ScriptRunner) (variableName : String)
    (args : Args) (index : Nat) (element : Value) (name : String) :
    (r.elementArgs variableName args index element).get? name =
      if name = variableName then some element
      else if r.prototype.isPath name then some
        (.ofText (indexedPath args name index))
      else args.get? name :=
  r.prototype.get?_overlay (fun name =>
    Value.ofText (indexedPath args name index)) args variableName element name

theorem getD_elementArgs (r : ScriptRunner) (variableName : String)
    (args : Args) (index : Nat) (element : Value) (name : String) :
    ((r.elementArgs variableName args index element).get? name).getD .null =
      r.elementValue variableName args index element name := by
  rw [get?_elementArgs]
  unfold elementValue
  by_cases hv : name = variableName
  · rw [if_pos hv, if_pos hv]
    rfl
  rw [if_neg hv, if_neg hv]
  by_cases hpath : r.prototype.isPath name = true
  · rw [if_pos hpath, if_pos hpath]
    rfl
  · rw [if_neg hpath, if_neg hpath]

end ScriptRunner

end Playbook
