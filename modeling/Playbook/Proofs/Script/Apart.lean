import Playbook.Proofs.Path.Apart
import Playbook.Proofs.Script.Batch
import Playbook.Proofs.Script.Sparing

/-!
# Playbook — the files of a batch

A batch makes a script for each of its jobs, and its jobs make their sentinels
and the output files that the prototype declares. A script has a token of its
own; the sentinels of all jobs have one token and the index of the job, and so
have the output files for one variable. So all these files have names of their
own. There is one exception: if the sentinel is itself declared an output file,
there is no path for it besides that of the output file, and every job is told
to make both of one file.

The tokens of the paths are those that are taken first. The others are taken by
exports and for the scripts, in an order that depends on the arguments; what is
known of them is carried through the parts of a batch (`ScriptRunner.Scripted`):
each script has a token between those that were handed out before the part and
after it, and the tokens grow.

Main results:

* `ScriptRunner.scripts_runArray` — the scripts of a batch have tokens of their own.
* `ScriptRunner.Numbered.pairwise_files_iff` — jobs with such paths and scripts
  have files with names of their own, unless the sentinel is an output file.
* `ScriptRunner.batch_files_apart` — so has every batch.
-/

namespace Playbook

open Effect

/-! ## Parts that start nothing -/

/-- Nothing was started; names may have been handed out. -/
structure World.Resting (w w' : World) : Prop extends World.Idle w w' where
  tokens : w.tokens ≤ w'.tokens

theorem World.serving_resting : Serving World.Resting where
  refl w := ⟨serving_idle.refl w, Nat.le_refl _⟩
  trans h k := ⟨h.toIdle.trans k.toIdle, Nat.le_trans h.tokens k.tokens⟩
  side _ _ _ _ _ _ htokens := ⟨⟨rfl, rfl⟩, htokens⟩
  event w event hstep hlaunch :=
    ⟨serving_idle.event w event hstep hlaunch, Nat.le_refl _⟩
  lock w w' slot hfree h := ⟨serving_idle.lock w w' slot hfree h.toIdle, h.tokens⟩

theorem World.Resting.trans {w w' w'' : World} (h : w.Resting w')
    (k : w'.Resting w'') : w.Resting w'' :=
  World.serving_resting.toChains.trans h k

namespace ScriptRunner

/-! ## Scripts -/

/-- The path of the script whose token has a number. -/
def scriptPath (r : ScriptRunner) (n : Nat) : String :=
  Path.unique r.workdir r.name "sh" (Token.ofNat n)

/-- Programs were started with scripts whose tokens have these numbers, in this
order. The tokens were handed out in the meantime, one after the other. -/
structure Scripted (r : ScriptRunner) (numbers : List Nat)
    (w w' : World) : Prop where
  tokens : w.tokens ≤ w'.tokens
  jobs : w'.jobs = w.jobs + numbers.length
  started : w'.started = w.started ++
    ((numbers.map r.scriptPath).zipIdx w.jobs).map fun (path, number) =>
      (number, r.launcher, [path])
  taken : ∀ n ∈ numbers, w.tokens ≤ n ∧ n < w'.tokens
  ordered : numbers.Pairwise (· < ·)

variable {r : ScriptRunner}

theorem Scripted.of_resting {w w' : World} (h : w.Resting w') :
    r.Scripted [] w w' where
  tokens := h.tokens
  jobs := h.jobs
  started := by
    rw [h.started, List.map_nil, List.zipIdx_nil, List.map_nil, List.append_nil]
  taken _ hn := (List.not_mem_nil hn).elim
  ordered := .nil

theorem Scripted.append {numbers numbers' : List Nat} {w w' w'' : World}
    (h : r.Scripted numbers w w') (k : r.Scripted numbers' w' w'') :
    r.Scripted (numbers ++ numbers') w w'' where
  tokens := Nat.le_trans h.tokens k.tokens
  jobs := by rw [k.jobs, h.jobs, List.length_append, Nat.add_assoc]
  started := by
    rw [k.started, h.started, h.jobs, List.map_append, List.zipIdx_append,
      List.map_append, List.append_assoc, List.length_map]
  taken n hn := by
    rcases List.mem_append.mp hn with hbefore | hafter
    · obtain ⟨hlow, hhigh⟩ := h.taken n hbefore
      exact ⟨hlow, Nat.lt_of_lt_of_le hhigh k.tokens⟩
    · obtain ⟨hlow, hhigh⟩ := k.taken n hafter
      exact ⟨Nat.le_trans h.tokens hlow, hhigh⟩
  ordered := by
    -- the first part has its tokens before the second takes any
    refine List.pairwise_append.mpr ⟨h.ordered, k.ordered, fun m hm n hn => ?_⟩
    exact Nat.lt_of_lt_of_le (h.taken m hm).2 (k.taken n hn).1

/-- Programs were started with scripts that have tokens of their own. -/
def Scripts (r : ScriptRunner) (w w' : World) : Prop :=
  ∃ numbers, r.Scripted numbers w w'

theorem Scripts.of_resting {w w' : World} (h : w.Resting w') :
    r.Scripts w w' := ⟨[], .of_resting h⟩

theorem noting_scripts (r : ScriptRunner) : Noting r.Scripts where
  refl w := .of_resting (World.serving_resting.refl w)
  trans := fun ⟨_, h⟩ ⟨_, k⟩ => ⟨_, h.append k⟩
  event w event hstep hlaunch :=
    .of_resting (World.serving_resting.event w event hstep hlaunch)

/-- The token of a script is handed out while the script is written. -/
theorem path_of_writeScript {texts : Dict String} {w w' : World} {path : String}
    (h : (r.writeScript texts).run w = (.ok path, w')) :
    path = r.scriptPath w.tokens ∧ w'.tokens = w.tokens + 1 := by
  obtain ⟨_, w₁, hdirectory, h⟩ := run_bind_ok h
  obtain ⟨name, w₂, hname, h⟩ := run_bind_ok h
  obtain ⟨_, w₃, hwrite, h⟩ := run_bind_ok h
  obtain ⟨_, w₄, htrack, h⟩ := run_bind_ok h
  -- only the name takes a token
  have hmade := Act.run_within_ok hdirectory
  have hwritten := Act.run_within_ok hwrite
  rw [Act.run_onDisk] at hmade hwritten
  rw [Act.run_uniquePath] at hname
  obtain ⟨-, rfl⟩ := Prod.mk.inj hmade
  cases hname
  obtain ⟨-, rfl⟩ := Prod.mk.inj hwritten
  cases htrack
  cases h
  exact ⟨rfl, rfl⟩

theorem tokens_launch (ctx : Context) (l : Launch) (w : World) :
    ((Act.launch ctx l).run w).2.tokens = w.tokens := by
  unfold Act.launch
  dsimp only [ExceptT.run]
  cases ctx.host.start w.jobs l w.disk <;> rfl

section

variable {ctx : Context} {calls : Calls} (hcalls : calls.OfItems ctx)

include hcalls

/-- The launch of an element starts its job with a script whose token is taken
then, or it starts nothing. -/
theorem scripts_launchElement (b : Binding) (args : Args) (shared : Dict String)
    (index : Nat) (element : Value) :
    Along r.Scripts (r.launchElement ctx calls b args shared index element) := by
  intro w
  have hR : Serving World.Resting := World.serving_resting
  -- up to the launch, names are handed out and nothing is started
  have hrender := hR.renderValue (hcalls.along_export hR)
      b.role.exportFormat element w
  rcases htext : (renderValue calls b.role.exportFormat element).run w with
    ⟨failure | text, w₁⟩
  · rw [htext] at hrender
    rw [launchElement, run_bind_of_error htext]
    exact .of_resting hrender
  rw [htext] at hrender
  rw [launchElement, run_bind_of_ok htext]
  have hwrite := hR.writeScript r (r.elementTexts b.name args shared index text) w₁
  rcases hscript :
    (r.writeScript (r.elementTexts b.name args shared index text)).run
    w₁ with ⟨failure | script, w₂⟩
  · rw [hscript] at hwrite
    rw [run_bind_of_error hscript]
    exact .of_resting (hrender.trans hwrite)
  rw [hscript] at hwrite
  rw [run_bind_of_ok hscript]
  have hbefore : w.Resting w₂ := hrender.trans hwrite
  obtain ⟨rfl, htoken⟩ := path_of_writeScript hscript
  have htokens :=
    tokens_launch ctx
      { program := r.launcher, arguments := [r.scriptPath w₁.tokens] } w₂
  rcases Act.run_launch ctx
      { program := r.launcher, arguments := [r.scriptPath w₁.tokens] } w₂ with
    ⟨kind, -, hlaunch⟩ | ⟨outcome, w₃, hlaunch, hjobs, hstarted⟩
  · rw [run_bind_of_ok hlaunch]
    exact .of_resting hbefore
  · rw [run_bind_of_ok hlaunch]
    rw [hlaunch] at htokens
    dsimp only at htokens
    have hlaunched : r.Scripted [w₁.tokens] w w₃ := by
      refine ⟨?_, ?_, ?_, ?_, List.pairwise_singleton _ _⟩
      · rw [htokens]
        exact hbefore.tokens
      · rw [hjobs, hbefore.jobs]
        rfl
      · rw [hstarted, hbefore.started, hbefore.jobs]
        rfl
      · intro n hn
        rw [List.mem_singleton.mp hn, htokens, htoken]
        exact ⟨hrender.tokens, Nat.lt_succ_self _⟩
    -- what is printed after the start starts nothing
    exact ⟨_, hlaunched.append (.of_resting (hR.print outcome.output w₃))⟩

/-- The scripts of a batch have tokens of their own. -/
theorem scripts_runArray (b : Binding) (args : Args) (shared : Dict String) :
    Along r.Scripts (r.runArray ctx calls b args shared) := by
  refine (noting_scripts r).congruence.runArray calls (fun _ _ i v _ => ?_)
    fun sentinels w => ?_
  · exact scripts_launchElement hcalls b args shared i v
  · exact .of_resting (World.serving_resting.waitAll ctx sentinels w)

/-- So have those of a call, from its check on. -/
theorem scripts_runNamed {v : String} {b : Binding}
    (hv : r.prototype.arrayVariable = some v)
    (hb : r.prototype.bindings.get? v = some b) (sentinel : String)
    (named : Args) :
    Along r.Scripts (r.runNamed ctx calls sentinel named) := by
  have hN : Noting r.Scripts := noting_scripts r
  have hR : Serving World.Resting := World.serving_resting
  refine hN.bind (hN.validate r named) fun _ =>
    hN.bind (fun w => ?_) fun shared => ?_
  · exact .of_resting (hR.renderShared (hcalls.along_export hR)
      r.prototype.bindings named w)
  · rw [runJobs_array hv hb]
    exact scripts_runArray hcalls b named shared

end

/-! ## Paths of the jobs -/

/-- The path that a call makes up for a variable, with the names that it takes
from the first on: that of an output file, or else that of the sentinel. The
paths of the jobs are this one with their indices. -/
def basePath (r : ScriptRunner) (first : Nat) (name : String) : String :=
  let outputs := r.prototype.fileOutputs.map (·.name)
  if name ∈ outputs then Path.unique r.workdir name "npz"
    (Token.ofNat (first + 1 + outputs.idxOf name))
  else Path.unique r.workdir "" "ended" (Token.ofNat first)

section

variable {args named : Args} {sentinel : String} {first : Nat}
  (hr : r.prototype.Accepted) (hpaths : PathsIn r args sentinel named)
  (hfrom : PathsFrom r first sentinel named)

include hr hpaths hfrom

/-- The paths that stand among the arguments of a call. -/
theorem get?_basePath {name : String} (hname : r.prototype.isPath name = true) :
    named.get? name = some (.ofText (r.basePath first name)) := by
  unfold basePath
  dsimp only
  by_cases hfile : name ∈ r.prototype.fileOutputs.map (·.name)
  · rw [if_pos hfile]
    obtain ⟨b, hb, rfl⟩ := List.mem_map.mp hfile
    obtain ⟨k, hk, hget⟩ := hfrom.outputs b hb
    obtain ⟨hlt, hat⟩ := List.getElem?_eq_some_iff.mp hk
    have hindex := hr.nodup_fileOutputs.idxOf_getElem k hlt
    rw [hat] at hindex
    rw [hget, hindex]
  · rw [if_neg hfile]
    have hnone : ∀ b ∈ r.prototype.fileOutputs, b.name ≠ name :=
      fun b hb hsame => hfile (hsame ▸ List.mem_map_of_mem hb)
    -- a path that no output file takes is that of the sentinel
    rcases (Bool.or_eq_true _ _).mp hname with htouch | hany
    · obtain rfl : name = Prototype.touchfile := beq_iff_eq.mp htouch
      rw [hpaths.sentinel hnone, hfrom.sentinel]
    · obtain ⟨b, hb, hsame⟩ := List.any_eq_true.mp hany
      exact absurd (beq_iff_eq.mp hsame) (hnone b hb)

theorem indexedPath_eq {name : String} (hname : r.prototype.isPath name = true)
    (index : Nat) :
    indexedPath named name index = Path.withIndex
      (r.basePath first name) index := by
  unfold indexedPath
  rw [get?_basePath hr hpaths hfrom hname]
  rfl

/-- The texts of the jobs for a path of the call are this path
with their indices. -/
theorem textOf_batchJobs {v name : String}
      (hname : r.prototype.isPath name = true) (hv : name ≠ v)
    (shared : Dict String) (owns : List String) :
    (r.batchJobs v named shared 0 owns).map (·.textOf name) =
      (List.range owns.length).map (Path.withIndex (r.basePath first name)) := by
  have htext : ∀ entry : String × Nat,
      r.elementText v named shared entry.2 entry.1 name =
      Path.withIndex (r.basePath first name) entry.2 := by
    intro entry
    unfold elementText
    rw [if_neg hv, if_pos hname, indexedPath_eq hr hpaths hfrom hname]
  unfold batchJobs
  rw [List.map_map, List.range_eq_range', ← List.zipIdx_map_snd 0 owns,
    List.map_map]
  exact List.map_congr_left fun entry _ => htext entry

end

/-- The files that the jobs of a batch make: the sentinels, and the output
files by variable. -/
def sentinelPaths (jobs : List Job) : List String := jobs.map (·.sentinel)

def outputPaths (r : ScriptRunner) (jobs : List Job) : List String :=
  r.prototype.fileOutputs.flatMap fun b => jobs.map (·.textOf b.name)

/-- The paths of jobs are those that the call made up, with their indices, and
the tokens of scripts have later numbers, up to the last. -/
structure Numbered (r : ScriptRunner) (first last : Nat) (jobs : List Job)
    (numbers : List Nat) : Prop where
  sentinels : jobs.map (·.sentinel) = (List.range jobs.length).map
    (Path.withIndex (r.basePath first Prototype.touchfile))
  outputs : ∀ b ∈ r.prototype.fileOutputs,
    jobs.map (·.textOf b.name) = (List.range jobs.length).map
      (Path.withIndex (r.basePath first b.name))
  named : first + r.prototype.fileOutputs.length < last
  taken : ∀ n ∈ numbers, first + r.prototype.fileOutputs.length < n ∧ n < last
  ordered : numbers.Pairwise (· < ·)

/-! ## Names that differ -/

theorem named_scriptPath (r : ScriptRunner) (n : Nat) :
    Path.Named n none "sh" (r.scriptPath n) :=
  Path.named_unique r.workdir r.name (by decide) (by decide) n

theorem basePath_of_mem {first : Nat} {name : String}
    (h : name ∈ r.prototype.fileOutputs.map (·.name)) :
    r.basePath first name = Path.unique r.workdir name "npz"
      (Token.ofNat (first + 1 + (r.prototype.fileOutputs.map (·.name)).idxOf
        name)) := if_pos h

theorem basePath_of_not_mem {first : Nat} {name : String}
    (h : name ∉ r.prototype.fileOutputs.map (·.name)) :
    r.basePath first name = Path.unique r.workdir "" "ended"
      (Token.ofNat first) := if_neg h

/-- Every path of a job has a token, its index, and one of two extensions; and
the index is all that it has more than the path that the call made up. -/
theorem exists_named (r : ScriptRunner) (first : Nat) (name : String) :
    ∃ n extension, extension ∈ ["npz", "ended"] ∧
    ∀ index, Path.Named n (some index) extension
      (Path.withIndex (r.basePath first name) index) ∧
      Path.Indexed (r.basePath first name) index
        (Path.withIndex (r.basePath first name) index) := by
  have hbase : ∃ stem extension n, extension ∈ ["npz", "ended"] ∧
      r.basePath first name = Path.unique r.workdir stem extension
        (Token.ofNat n) := by
    by_cases h : name ∈ r.prototype.fileOutputs.map (·.name)
    · exact ⟨_, _, _, by decide, basePath_of_mem h⟩
    · exact ⟨_, _, _, by decide, basePath_of_not_mem h⟩
  obtain ⟨stem, extension, n, hextension, hbase⟩ := hbase
  have hkind : '/' ∉ extension.toList ∧ '.' ∉ extension.toList := by
    rcases List.mem_pair.mp hextension with rfl | rfl <;> decide
  rw [hbase]
  refine ⟨n, extension, hextension, fun index => ⟨?_, ?_⟩⟩
  · exact Path.named_withIndex r.workdir stem hkind.1 hkind.2 n index
  · exact Path.indexed_withIndex r.workdir stem hkind.1 hkind.2 n index

/-- The paths of the jobs for one variable have different indices. -/
theorem pairwise_indexed (r : ScriptRunner) (first : Nat) (name : String)
    (count : Nat) :
    ((List.range count).map (Path.withIndex (r.basePath first name))).Pairwise
      Path.Apart := by
  obtain ⟨n, extension, -, hnamed⟩ := exists_named r first name
  refine List.pairwise_map.mpr (List.pairwise_lt_range.imp fun {i j} hlt => ?_)
  exact (hnamed i).1.apart (hnamed j).1 rfl (Or.inr fun hsame =>
    absurd (Option.some.inj hsame) (Nat.ne_of_lt hlt))

/-- A script is no file of a job. -/
theorem apart_scriptPath (r : ScriptRunner) (first : Nat) (name : String)
    (index n : Nat) :
    Path.Apart (Path.withIndex (r.basePath first name) index) (r.scriptPath n) := by
  obtain ⟨m, extension, hextension, hnamed⟩ := exists_named r first name
  refine (hnamed index).1.apart_of_extension (named_scriptPath r n) ?_
  rintro rfl
  exact absurd hextension (by decide)

namespace Numbered

variable {first last : Nat} {jobs : List Job} {numbers : List Nat}
  (h : r.Numbered first last jobs numbers)

include h

theorem exists_of_sentinel {path : String} (hpath : path ∈ sentinelPaths jobs) :
    ∃ index, path = Path.withIndex
      (r.basePath first Prototype.touchfile) index := by
  unfold sentinelPaths at hpath
  rw [h.sentinels] at hpath
  obtain ⟨index, -, rfl⟩ := List.mem_map.mp hpath
  exact ⟨index, rfl⟩

theorem exists_of_output {path : String} (hpath : path ∈ r.outputPaths jobs) :
    ∃ b ∈ r.prototype.fileOutputs, ∃ index,
    path = Path.withIndex (r.basePath first b.name) index := by
  obtain ⟨b, hb, hmem⟩ := List.mem_flatMap.mp hpath
  rw [h.outputs b hb] at hmem
  obtain ⟨index, -, rfl⟩ := List.mem_map.mp hmem
  exact ⟨b, hb, index, rfl⟩

theorem pairwise_sentinels : (sentinelPaths jobs).Pairwise Path.Apart := by
  unfold sentinelPaths
  rw [h.sentinels]
  exact pairwise_indexed r first Prototype.touchfile jobs.length

/-- A script is no output file. -/
theorem apart_script_output {p q : String} (hp : p ∈ numbers.map r.scriptPath)
    (hq : q ∈ r.outputPaths jobs) :
    Path.Apart p q := by
  obtain ⟨n, -, rfl⟩ := List.mem_map.mp hp
  obtain ⟨b, -, index, rfl⟩ := h.exists_of_output hq
  exact (apart_scriptPath r first b.name index n).symm

section

variable (hdistinct : Token.Distinct first last)

include hdistinct

theorem pairwise_scripts : (numbers.map r.scriptPath).Pairwise Path.Apart := by
  refine List.pairwise_map.mpr (h.ordered.imp_of_mem fun {m n} hm hn hlt => ?_)
  have hlow : first ≤ m := Nat.le_of_add_right_le (Nat.le_of_lt (h.taken m hm).1)
  exact (named_scriptPath r m).apart (named_scriptPath r n)
    rfl (Or.inl (hdistinct m n hlow hlt (h.taken n hn).2))

/-- The output files for two variables have different tokens. -/
theorem apart_outputs {b c : Binding} (hb : b ∈ r.prototype.fileOutputs)
    (hc : c ∈ r.prototype.fileOutputs) (hne : b.name ≠ c.name) (i j : Nat) :
    Path.Apart (Path.withIndex (r.basePath first b.name) i)
      (Path.withIndex (r.basePath first c.name) j) := by
  let names := r.prototype.fileOutputs.map (·.name)
  have hmem : ∀ d ∈ r.prototype.fileOutputs, d.name ∈ names :=
    fun d hd => List.mem_map_of_mem hd
  -- the output files have the numbers after that of the sentinel, in their order
  have hlast : ∀ d ∈ r.prototype.fileOutputs,
      first + 1 + names.idxOf d.name < last := by
    intro d hd
    have hlt : names.idxOf d.name < names.length :=
      List.idxOf_lt_length_of_mem (hmem d hd)
    have hlength : names.length = r.prototype.fileOutputs.length :=
      List.length_map _
    have hnamed := h.named
    omega
  have hindex : names.idxOf b.name ≠ names.idxOf c.name :=
    mt (List.idxOf_inj (hmem b hb)).mp hne
  have htoken : Token.ofNat (first + 1 + names.idxOf b.name) ≠
      Token.ofNat (first + 1 + names.idxOf c.name) := by
    rcases Nat.lt_or_gt_of_ne hindex with hlt | hgt
    · exact hdistinct _ _ (by omega) (by omega) (hlast c hc)
    · exact (hdistinct _ _ (by omega) (by omega) (hlast b hb)).symm
  rw [basePath_of_mem (hmem b hb), basePath_of_mem (hmem c hc)]
  exact (Path.named_withIndex r.workdir b.name (by decide) (by decide) _ i).apart
    (Path.named_withIndex r.workdir c.name (by decide) (by decide) _ j)
    rfl (Or.inl htoken)

theorem pairwise_outputs (hr : r.prototype.Accepted) :
    (r.outputPaths jobs).Pairwise Path.Apart := by
  refine List.pairwise_flatMap.mpr ⟨fun b hb => ?_, ?_⟩
  · rw [h.outputs b hb]
    exact pairwise_indexed r first b.name jobs.length
  · refine (List.pairwise_map.mp hr.nodup_fileOutputs).imp_of_mem
      fun {b c} hb hc hne p hp q hq => ?_
    rw [h.outputs b hb] at hp
    rw [h.outputs c hc] at hq
    obtain ⟨i, -, rfl⟩ := List.mem_map.mp hp
    obtain ⟨j, -, rfl⟩ := List.mem_map.mp hq
    exact h.apart_outputs hdistinct hb hc hne i j

/-- The sentinels and the scripts of a batch have names of their own. -/
theorem pairwise_sentinels_scripts :
    (sentinelPaths jobs ++ numbers.map r.scriptPath).Pairwise Path.Apart := by
  refine List.pairwise_append.mpr ⟨h.pairwise_sentinels,
    h.pairwise_scripts hdistinct, fun p hp q hq => ?_⟩
  obtain ⟨index, rfl⟩ := h.exists_of_sentinel hp
  obtain ⟨n, -, rfl⟩ := List.mem_map.mp hq
  exact apart_scriptPath r first _ index n

/-- The scripts and the output files of a batch have names of their own. -/
theorem pairwise_scripts_outputs (hr : r.prototype.Accepted) :
    (numbers.map r.scriptPath ++ r.outputPaths jobs).Pairwise Path.Apart := by
  exact List.pairwise_append.mpr ⟨h.pairwise_scripts hdistinct,
      h.pairwise_outputs hdistinct hr, fun _ hp _ hq =>
    h.apart_script_output hp hq⟩

omit hdistinct in
/-- If the sentinel is declared an output file, every job has one file for both. -/
theorem outputPaths_of_declared {b : Binding} (hb : b ∈ r.prototype.fileOutputs)
    (hname : b.name = Prototype.touchfile) {path : String}
    (hpath : path ∈ sentinelPaths jobs) : path ∈ r.outputPaths jobs := by
  refine List.mem_flatMap.mpr ⟨b, hb, ?_⟩
  rw [h.outputs b hb, hname, ← h.sentinels]
  exact hpath

omit hdistinct in
/-- A sentinel that is not declared an output file is none. -/
theorem apart_sentinel
    (hnone : ∀ b ∈ r.prototype.fileOutputs, b.name ≠ Prototype.touchfile)
    {p q : String} (hp : p ∈ sentinelPaths jobs) (hq : q ∈ r.outputPaths jobs) :
    Path.Apart p q := by
  obtain ⟨i, rfl⟩ := h.exists_of_sentinel hp
  obtain ⟨b, hb, j, rfl⟩ := h.exists_of_output hq
  have hsentinel : Prototype.touchfile ∉ r.prototype.fileOutputs.map (·.name) := by
    intro hmem
    obtain ⟨c, hc, hname⟩ := List.mem_map.mp hmem
    exact hnone c hc hname
  rw [basePath_of_not_mem hsentinel, basePath_of_mem (List.mem_map_of_mem hb)]
  exact (Path.named_withIndex r.workdir "" (by decide) (by decide) first
    i).apart_of_extension
      (Path.named_withIndex r.workdir b.name (by decide) (by decide) _ j) (by decide)

/-- All files of a batch have names of their own, unless its sentinel is
declared an output file and there are jobs. -/
theorem pairwise_files_iff (hr : r.prototype.Accepted) :
    (sentinelPaths jobs ++ numbers.map r.scriptPath ++ r.outputPaths
      jobs).Pairwise Path.Apart ↔
      jobs = [] ∨ ∀ b ∈ r.prototype.fileOutputs, b.name ≠ Prototype.touchfile := by
  rw [List.pairwise_append]
  constructor
  · rintro ⟨-, -, hapart⟩
    cases jobs with
    | nil => exact Or.inl rfl
    | cons job jobs =>
      -- the sentinel of the first job would be one of its output files
      refine Or.inr fun b hb hname => ?_
      have hsentinel : job.sentinel ∈ sentinelPaths (job :: jobs) :=
        List.mem_cons_self ..
      have houtput := h.outputPaths_of_declared hb hname hsentinel
      exact Path.not_apart_self _
        (hapart _ (List.mem_append_left _ hsentinel) _ houtput)
  · intro hnone
    refine ⟨h.pairwise_sentinels_scripts hdistinct,
      h.pairwise_outputs hdistinct hr, fun p hp q hq => ?_⟩
    rcases List.mem_append.mp hp with hsentinel | hscript
    · rcases hnone with rfl | hnone
      · exact (List.not_mem_nil hsentinel).elim
      · exact h.apart_sentinel hnone hsentinel hq
    · exact h.apart_script_output hscript hq

end

/-- The export of a database is none of the files of a batch. -/
theorem apart_export {path : String} (hpath : Path.Exported path) :
    ∀ file ∈ sentinelPaths jobs ++ numbers.map r.scriptPath ++ r.outputPaths jobs,
    Path.Apart path file := by
  have hindexed : ∀ name index, Path.Apart path
      (Path.withIndex (r.basePath first name) index) := by
    intro name index
    obtain ⟨n, extension, -, hnamed⟩ := exists_named r first name
    exact hpath.apart_of_index (hnamed index).1
  intro file hfile
  rcases List.mem_append.mp hfile with hbefore | houtput
  · rcases List.mem_append.mp hbefore with hsentinel | hscript
    · obtain ⟨index, rfl⟩ := h.exists_of_sentinel hsentinel
      exact hindexed _ index
    · obtain ⟨n, -, rfl⟩ := List.mem_map.mp hscript
      exact hpath.apart_of_extension (named_scriptPath r n) (by decide)
  · obtain ⟨b, -, index, rfl⟩ := h.exists_of_output houtput
    exact hindexed _ index

/-- Every path of a job is the one that the call made up, with the
index of the job. -/
theorem indexed {i : Nat} {job : Job} (hjob : jobs[i]? = some job) :
    Path.Indexed (r.basePath first Prototype.touchfile) i job.sentinel ∧
      ∀ b ∈ r.prototype.fileOutputs, Path.Indexed (r.basePath first b.name) i
        (job.textOf b.name) := by
  have hlt : i < jobs.length := (List.getElem?_eq_some_iff.mp hjob).1
  have hrange : ∀ (f : Job → String) (name : String),
      jobs.map f = (List.range jobs.length).map
        (Path.withIndex (r.basePath first name)) →
        Path.Indexed (r.basePath first name) i (f job) := by
    intro f name hmap
    have hat : (jobs.map f)[i]? = _ := congrArg (·[i]?) hmap
    rw [List.getElem?_map, hjob, List.getElem?_map, List.getElem?_range hlt] at hat
    obtain ⟨n, extension, -, hnamed⟩ := exists_named r first name
    rw [Option.some.inj hat]
    exact (hnamed i).2
  exact ⟨hrange _ _ h.sentinels, fun b hb =>
    hrange (·.textOf b.name) _ (h.outputs b hb)⟩

end Numbered

/-! ## Calls -/

section

variable {ctx : Context} {calls : Calls} (hcalls : calls.OfItems ctx)
  (hr : r.prototype.Accepted) {v : String} {b : Binding}
  (hv : r.prototype.arrayVariable = some v)
  (hb : r.prototype.bindings.get? v = some b)

include hcalls hr hv hb

/-- With its paths among the arguments a call goes on with the jobs of the
elements in the list of the caller, or starts none. -/
theorem course_of_runNamed {args named : Args} {sentinel : String}
    (hpaths : PathsIn r args sentinel named) (w : World) :
    ∃ shared owns result w', (r.runNamed ctx calls sentinel named).run w =
      (result, w') ∧
      (owns ≠ [] → r.prototype.isPath v = false) ∧
      Course ctx r (r.jobCount args) (r.batchJobs v named shared 0 owns) w
      result w' := by
  rcases run_runNamed hcalls hpaths w with ⟨failure, w', hfail, hidle, -⟩ |
    ⟨shared, w₁, hidle, hprepared, hnamed⟩
  · exact ⟨[], [], _, w', hfail, fun h =>
      absurd rfl h, .abandoned (Or.inl rfl) (.none hidle)⟩
  · obtain ⟨owns, result, w', hrun, hpath, hcourse⟩ :=
      course_of_batchJobs hr hprepared hcalls hv hb w₁
    rw [runJobs_array hv hb, hrun] at hnamed
    exact ⟨shared, owns, result, w', hnamed, hpath, hcourse.around hidle ⟨rfl, rfl⟩⟩

/-- The jobs of a call have the paths that were made up first, and its scripts
have later tokens. -/
theorem numbered_of_run (args : Args) (w : World) :
    ∃ jobs numbers result w', (r.run ctx calls args).run w = (result, w') ∧
      Course ctx r (r.jobCount args) jobs w result w' ∧
      numbers.length = jobs.length ∧
      w'.started = w.started ++
        ((numbers.map r.scriptPath).zipIdx w.jobs).map (fun (path, number) =>
          (number, r.launcher, [path])) ∧
      r.Numbered w.tokens w'.tokens jobs numbers := by
  obtain ⟨sentinel, named, hpaths, hfrom, hwith⟩ := run_withPaths r args w
  let start : World :=
    { w with generated := [], tokens := w.tokens + 1 + r.prototype.fileOutputs.length }
  have hcall : (r.run ctx calls args).run w = _ :=
    (hwith (r.runNamed ctx calls)).trans (Act.run_cleaning _ _)
  obtain ⟨numbers, hscripted⟩ := scripts_runNamed hcalls hv hb sentinel named start
  obtain ⟨shared, owns, result, w₁, hrun, hpath, hcourse⟩ :=
    course_of_runNamed hcalls hr hv hb hpaths start
  rw [hrun] at hcall hscripted
  have hbegin : w.Idle start := ⟨rfl, rfl⟩
  have hcount : numbers.length = (r.batchJobs v named shared 0 owns).length :=
    Nat.add_left_cancel (hscripted.jobs.symm.trans hcourse.count)
  -- what is removed at the end has no part in the rest
  refine ⟨_, numbers, result, _, hcall, hcourse.around hbegin ⟨rfl, rfl⟩,
    hcount, hscripted.started, ?_⟩
  rw [length_batchJobs] at hcount
  refine ⟨?_, fun c hc => ?_, ?_, fun n hn => ?_, hscripted.ordered⟩
  · rw [sentinels_batchJobs, length_batchJobs]
    exact List.map_congr_left fun i _ =>
      indexedPath_eq hr hpaths hfrom r.prototype.isPath_touchfile i
  · rw [length_batchJobs]
    cases owns with
    | nil => rfl
    | cons own owns =>
      -- the jobs have a path for every output file, since none of them is the
      -- driving variable
      have hne : c.name ≠ v := by
        intro hsame
        have hdriving := hpath (List.cons_ne_nil _ _)
        rw [← hsame, Prototype.isPath_of_mem hc] at hdriving
        cases hdriving
      exact textOf_batchJobs hr hpaths hfrom (Prototype.isPath_of_mem hc) hne
        shared (own :: owns)
  · have htokens : w.tokens + 1 + r.prototype.fileOutputs.length ≤ w₁.tokens :=
      hscripted.tokens
    show w.tokens + r.prototype.fileOutputs.length < w₁.tokens
    omega
  · obtain ⟨hlow, hhigh⟩ := hscripted.taken n hn
    have hstart : w.tokens + 1 + r.prototype.fileOutputs.length ≤ n := hlow
    exact ⟨by omega, hhigh⟩

end

/-- **No two files of a batch have one name, unless its sentinel is declared an
output file.** Let the tokens that are handed out during a call be different.
Whatever its arguments and the world, the call of an accepted prototype with a
driving variable has a course with some jobs, each with a script of its own. The
sentinel of each job and its output files are the paths that the call made up
with the index of the job before the last dot of the last component, and nothing
else changed. The sentinels and the scripts have different file names, the
scripts and the output files too; all of them together have, exactly if there is
no job or no output file is declared under the name of the sentinel. The export
of a database, whenever it is made, has another one than any of them. -/
theorem batch_files_apart {ctx : Context} {calls : Calls}
    (hcalls : calls.OfItems ctx) {subject text v : String}
    (hparse : Prototype.parse subject text = .ok r.prototype)
    (hv : r.prototype.arrayVariable = some v) (args : Args) (w : World)
    (hdistinct : Token.Distinct w.tokens
      ((r.run ctx calls args).run w).2.tokens) :
    ∃ jobs scripts result w', (r.run ctx calls args).run w = (result, w') ∧
      Course ctx r (r.jobCount args) jobs w result w' ∧
      scripts.length = jobs.length ∧
      w'.started = w.started ++ (scripts.zipIdx w.jobs).map
        (fun (path, number) => (number, r.launcher, [path])) ∧
      (∀ i job, jobs[i]? = some job →
        Path.Indexed (r.basePath w.tokens Prototype.touchfile) i job.sentinel ∧
        ∀ b ∈ r.prototype.fileOutputs,
        Path.Indexed (r.basePath w.tokens b.name) i (job.textOf b.name)) ∧
      (sentinelPaths jobs ++ scripts).Pairwise Path.Apart ∧
      (scripts ++ r.outputPaths jobs).Pairwise Path.Apart ∧
      ((sentinelPaths jobs ++ scripts ++ r.outputPaths jobs).Pairwise Path.Apart ↔
        jobs = [] ∨ ∀ b ∈ r.prototype.fileOutputs, b.name ≠ Prototype.touchfile) ∧
      ∀ (d : Database) format u path u', (d.exportAs format).run u =
        (.ok path, u') →
        ∀ file ∈ sentinelPaths jobs ++ scripts ++ r.outputPaths jobs,
        Path.Apart path file := by
  obtain ⟨hr, -⟩ := Prototype.accepted_of_parse hparse
  obtain ⟨b, hb⟩ := hr.get?_arrayVariable hv
  obtain ⟨jobs, numbers, result, w', hrun, hcourse, hcount, hstarted,
    hnumbered⟩ := numbered_of_run hcalls hr hv hb args w
  rw [hrun] at hdistinct
  refine ⟨jobs, numbers.map r.scriptPath, result, w', hrun, hcourse, ?_,
    hstarted, fun i job => hnumbered.indexed, ?_⟩
  · rw [List.length_map, hcount]
  · refine ⟨hnumbered.pairwise_sentinels_scripts hdistinct,
      hnumbered.pairwise_scripts_outputs hdistinct hr,
      hnumbered.pairwise_files_iff hdistinct hr,
      fun d format u path u' hexport => ?_⟩
    exact hnumbered.apart_export (Database.exported_of_exportAs hexport)

/-- A prototype whose jobs touch their sentinels and are each
told an output file. -/
def writingPrototype : Prototype where
  text :=
    "touch \x7b\x7btouchfile\x7d\x7d\n: \x7b\x7bx[]\x7d\x7d \x7b\x7bout:declare_file_output\x7d\x7d\n"
  tokens := [⟨"touchfile", "touchfile", .plain, false⟩, ⟨"x[]", "x", .plain, true⟩,
    ⟨"out:declare_file_output", "out", .declareFileOutput, false⟩]
  bindings := [("touchfile", ⟨"touchfile", "touchfile", .plain, false⟩),
    ("x", ⟨"x[]", "x", .plain, true⟩),
    ("out", ⟨"out:declare_file_output", "out", .declareFileOutput, false⟩)]
  arrayVariable := some "x"

/-- A prototype whose jobs are told their sentinels as output files. -/
def declaringBatch : Prototype where
  text :=
    "touch \x7b\x7btouchfile:declare_file_output\x7d\x7d\n: \x7b\x7bx[]\x7d\x7d\n"
  tokens :=
    [⟨"touchfile:declare_file_output", "touchfile", .declareFileOutput, false⟩,
      ⟨"x[]", "x", .plain, true⟩]
  bindings :=
    [("touchfile", ⟨"touchfile:declare_file_output", "touchfile",
      .declareFileOutput, false⟩),
    ("x", ⟨"x[]", "x", .plain, true⟩)]
  arrayVariable := some "x"

/-- The two sentinels, the two scripts and the two output files of a pair of
jobs have names of their own. -/
theorem pair_apart :
    let r := touchingRunner writingPrototype
    let args : Args := [("x", .json (.arr [.num (.integer 1), .num (.integer 2)]))]
    ∃ jobs scripts result w', (r.run touching (Calls.all touching) args).run
      { disk := .empty } = (result, w') ∧
      Course touching r 2 jobs { disk := .empty } result w' ∧
      scripts.length = jobs.length ∧ w'.started.length = 2 ∧
      (sentinelPaths jobs ++ scripts ++ r.outputPaths jobs).Pairwise
      Path.Apart ∧ result.isOk = true := by
  intro r args
  have hparse : Prototype.parse "job.proto.sh" writingPrototype.text =
      .ok r.prototype := by decide +kernel
  obtain ⟨value, w, hcalled, hcheck⟩ :=
    exists_ok_of_check
      ((r.run touching (Calls.all touching) args).run { disk := .empty })
    (fun _ w => w.tokens = 4 ∧ w.started.length = 2) (by decide +kernel)
  obtain ⟨htokens, hstarted⟩ := of_decide_eq_true hcheck
  have hdistinct : Token.Distinct 0
      ((r.run touching (Calls.all touching) args).run
        { disk := .empty }).2.tokens := by
    rw [hcalled, htokens]
    exact Token.distinct_of_le (by decide) 0
  obtain ⟨jobs, scripts, result, w', hrun, hcourse, hcount, -, -, -,
      -, hfiles, -⟩ :=
    batch_files_apart (Calls.ofItems_all touching)
    hparse rfl args { disk := .empty } hdistinct
  have hnone : ∀ b ∈ r.prototype.fileOutputs,
      b.name ≠ Prototype.touchfile := by decide
  obtain ⟨rfl, rfl⟩ := Prod.mk.inj (hcalled.symm.trans hrun)
  exact ⟨jobs, scripts, .ok value, w, hrun, hcourse, hcount, hstarted,
    hfiles.mpr (Or.inr hnone), rfl⟩

/-- If the sentinel is declared an output file, the path that is returned for
the output file is the one that the call waits for, as it says when the wait is
over its bound. When the file is there, it is removed as a sentinel. -/
theorem output_is_sentinel :
    let r := touchingRunner declaringBatch
    let args : Args := [("x", .json (.arr [.num (.integer 1)]))]
    let called := (r.run touching (Calls.all touching) args).run { disk := .empty }
    let waited :=
      (r.run idleContext (Calls.all idleContext) args).run { disk := .empty }
    let path := "wd/touchfile.00000000000000000000000000000001.0.npz"
    Prototype.parse "job.proto.sh" declaringBatch.text = .ok r.prototype ∧
      Token.Distinct 0 called.2.tokens ∧ Token.Distinct 0 waited.2.tokens ∧
      called.1.toOption.bind Value.json? =
      some (.obj [("touchfile", .arr [.str path])]) ∧
      called.2.disk.isFile path = false ∧
      waited.1 = .error ⟨[], .waitTimeout 0 [path]⟩ := by
  intro r args called waited path
  obtain ⟨value, w, hcalled, hcheck⟩ := exists_ok_of_check called
    (fun value w => w.tokens = 3 ∧
      value.json? = some (.obj [("touchfile", .arr [.str path])]) ∧
      w.disk.isFile path = false)
    (by decide +kernel)
  obtain ⟨failure, w', hwaited, hcheck'⟩ := exists_of_check waited
    (fun failure w => w.tokens = 3 ∧ failure = ⟨[], .waitTimeout 0 [path]⟩)
      (by decide +kernel)
  obtain ⟨htokens, hjson, hfile⟩ := of_decide_eq_true hcheck
  obtain ⟨htokens', hfailure⟩ := of_decide_eq_true hcheck'
  have hfew : Token.Distinct 0 3 := Token.distinct_of_le (by decide) 0
  rw [hcalled, hwaited]
  refine ⟨by decide +kernel, ?_, ?_, hjson, hfile, congrArg Except.error hfailure⟩
  · rw [htokens]
    exact hfew
  · rw [htokens']
    exact hfew

end ScriptRunner

end Playbook
