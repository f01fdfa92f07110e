import Playbook.Proofs.Json.Codec
import Playbook.Proofs.Path.Components

/-!
# Playbook — documents that are written and read back

A document is written as JSON, under a path that is extended by `.json` unless
it has that extension. Whether a document is read as JSON is decided by the
extension too. But a file name that begins with its only dot has no extension,
so a path without a name, that is extended to such a file name, leads to a
document that is not taken for JSON any more: it is read as block text, and when
it is written again the path is extended once more.

Main results:

* `Path.isJson_append` — a path that was extended is one of a JSON document,
  unless it had no name.
* `Path.json_json_iff` — which paths are extended only once.
* `Document.read_write_unless_unnamed` — what was written reads back as JSON and
  is written in place, unless the path had no name.
-/

namespace Playbook

namespace Path

theorem isJson_append (path : String) : isJson (path ++ ".json") = true ↔
    ¬ Unnamed path := by
  have hextension : extension? (path ++ ".json") = if Unnamed path then none
      else some (String.ofList "json".toList) :=
    extension?_of_toList String.toList_append (by decide) (by decide) (by decide)
  unfold isJson
  rw [hextension]
  split
  · next h => exact iff_of_false (by decide) (not_not_intro h)
  · next h => exact iff_of_true (by decide) h

/-- A path is extended once, or it had no name. -/
theorem json_json_iff (path : String) :
    json (json path) = json path ↔ (isJson path = true ∨ ¬ Unnamed path) := by
  have hlonger : ∀ s : String, s ++ ".json" ≠ s := by
    intro s hsame
    have hlength : (s ++ ".json").toList.length = s.toList.length := by rw [hsame]
    rw [String.toList_append, List.length_append] at hlength
    exact absurd (Nat.add_eq_left.mp hlength) (by decide)
  by_cases hjson : isJson path = true
  · simp [json, hjson]
  · unfold json
    rw [if_neg hjson]
    by_cases hagain : isJson (path ++ ".json") = true
    · rw [if_pos hagain]
      exact iff_of_true rfl (Or.inr ((isJson_append path).mp hagain))
    · rw [if_neg hagain]
      exact iff_of_false (hlonger _)
        (not_or.mpr ⟨hjson, mt (isJson_append path).mpr hagain⟩)

end Path

namespace Document

section

variable {α : Type} (decoder : Draft → Except Fault α) (path text : String)

/-- Decodes JSON text. -/
def asJson : Except Failure α :=
  let (draft, atEnd) := Draft.ofJsonText text
  match decoder draft with
  | .error fault => .error (Cause.documentJson path fault)
  | .ok value => if atEnd then .ok value
    else .error (Cause.documentJson path .malformed)

/-- Decodes block text. -/
def asBlock : Except Failure α :=
  match (Yaml.read text).map decoder with
  | some (.ok value) => .ok value
  | some (.error _) | none => .error (Cause.documentYaml path)

theorem decode_eq : decode decoder path text = if Path.isJson path then asJson
      decoder path text else asBlock decoder path text := rfl

/-- Data that reads back decodes as it would without having been written. -/
theorem asJson_pretty {value : Json} (h : value.ReadsBack) {x : α}
    (hx : decoder (Draft.ofJson value) = .ok x) :
    asJson decoder path value.pretty = .ok x := by
  unfold asJson
  rw [h.1]
  dsimp only
  rw [hx]
  rfl

end

variable {path written : String} {value : Json} {disk disk' : Disk}

/-- A document that was written is read as the text of its value, in the
way its path says. -/
theorem read_of_write {α : Type} (decoder : Draft → Except Fault α)
    (h : (write path value).run disk = (.ok written, disk')) :
    read decoder written disk' = decode decoder written value.pretty := by
  unfold read
  rw [(readText_of_write h).2]

/-- The path of a document that was written leads to a file. -/
theorem locate_of_write (h : (write path value).run disk = (.ok written, disk')) :
    ∃ place, disk'.locate written = .ok (place, false) := by
  obtain ⟨-, disk₁, hwrite⟩ := run_write_ok h
  obtain ⟨place, executable, hlocate, hplace, rfl⟩ := Disk.write_ok hwrite
  exact ⟨place, Disk.locate_put hplace hlocate⟩

/-- The path of a document that was written is one of JSON, unless it was
extended from no name. -/
theorem isJson_of_write (h : (write path value).run disk = (.ok written, disk')) :
    Path.isJson written = true ↔ ¬ Path.Unnamed path := by
  obtain rfl := (readText_of_write h).1
  obtain ⟨place, hlocate⟩ := locate_of_write h
  unfold Path.json at hlocate ⊢
  split
  · next hjson =>
    -- nothing is written under a path that ends in a slash
    rw [if_pos hjson] at hlocate
    obtain ⟨last, hlast, hcomponent⟩ := Disk.named_of_locate hlocate
    refine iff_of_true hjson fun hunnamed => ?_
    rw [Path.Unnamed, hlast] at hunnamed
    cases hunnamed
    cases hcomponent
  · exact Path.isJson_append path

/-- A document that was written reads back as JSON, and writing it again keeps
its path, unless the path it was written for has no name: then it is read as
block text, and writing it again extends the path once more. -/
theorem read_write_unless_unnamed
    (h : (write path value).run disk = (.ok written, disk')) :
    written = Path.json path ∧
      (¬ Path.Unnamed path →
        Path.json written = written ∧
        (∀ {α : Type} (decoder : Draft → Except Fault α),
          read decoder written disk' = asJson decoder written value.pretty ∧
          (value.ReadsBack → ∀ x, decoder (Draft.ofJson value) = .ok x →
            read decoder written disk' = .ok x)) ∧
        (value.ReadsBack → read Draft.toJson written disk' = .ok value)) ∧
      (Path.Unnamed path →
        Path.json written = written ++ ".json" ∧
        ∀ {α : Type} (decoder : Draft → Except Fault α),
          read decoder written disk' = asBlock decoder written value.pretty) := by
  have hjson := isJson_of_write h
  refine ⟨(readText_of_write h).1, fun hnamed => ?_, fun hunnamed => ?_⟩
  · have hwritten := hjson.mpr hnamed
    have hread : ∀ {α : Type} (decoder : Draft → Except Fault α),
        read decoder written disk' = asJson decoder written value.pretty :=
          fun decoder => by
      rw [read_of_write decoder h, decode_eq, if_pos hwritten]
    refine ⟨if_pos hwritten, fun decoder =>
      ⟨hread decoder, fun hback x hx => ?_⟩, fun hback => ?_⟩
    · rw [hread, asJson_pretty decoder written hback hx]
    · rw [hread, asJson_pretty Draft.toJson written hback hback.2]
  · have hwritten : ¬ Path.isJson written = true := fun hj => hjson.mp hj hunnamed
    exact ⟨if_neg hwritten,
      fun decoder => by rw [read_of_write decoder h, decode_eq, if_neg hwritten]⟩

/-- A document below a directory that is not there yet reads back under the
extended path. -/
theorem read_write_results : ∃ disk',
    (write "results/last" (.arr [.bool true])).run Disk.empty =
      (.ok "results/last.json", disk') ∧
      read Draft.toJson "results/last.json" disk' = .ok (.arr [.bool true]) := by
  obtain ⟨written, disk', hrun, hsame⟩ :=
    Effect.exists_ok_of_check
      ((write "results/last" (.arr [.bool true])).run Disk.empty)
        (fun written _ => written = "results/last.json") (by decide +kernel)
  obtain rfl := of_decide_eq_true hsame
  have hnamed := (read_write_unless_unnamed hrun).2.1 (by decide +kernel)
  exact ⟨disk', hrun, hnamed.2.2 (Json.readsBack_of_eq_true (by decide +kernel))⟩

/-- What is written under the empty path is not written in place the next time,
and not read as JSON. -/
theorem json_json_empty : ¬ ∀ (path written : String) (value : Json)
    (disk disk' : Disk), value.ReadsBack →
    (write path value).run disk = (.ok written, disk') →
      Path.isJson written = true ∧ Path.json written = written := by
  intro hclaim
  obtain ⟨written, disk', hrun, hsame⟩ :=
    Effect.exists_ok_of_check ((write "" .null).run Disk.empty)
      (fun written _ => written = ".json") (by decide +kernel)
  obtain rfl := of_decide_eq_true hsame
  exact absurd (hclaim "" ".json" .null Disk.empty disk'
    (Json.readsBack_of_eq_true (by decide +kernel)) hrun).2
      (by decide +kernel)

end Document

end Playbook
