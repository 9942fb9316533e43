import ArrayReplay.Proofs.Editing.Amendment
import ArrayReplay.Proofs.Playing.Frames

namespace ArrayReplay

namespace Playback
open Grammar

variable {p : Playback} {index : Nat} {v : Value} {now : Time} {name : Text} {a : ArrayValue}

theorem environment_live (h : Coherent p) (live : p.mode = .live) :
    p.environment = (Program.ofSource p.source).environment := by
  rw [environment_eq h, live, ← h.program_eq]

theorem validate_eq (h : Coherent p) : p.validate = (Program.ofSource p.source).replay :=
  congrArg Program.replay h.program_eq

theorem found_of_current (h : Coherent p) (live : p.mode = .live)
    (current : p.current? = some (name, a)) :
    (Program.ofSource p.source).environment.get? name = some a := by
  rw [← environment_live h live]
  exact Environment.get?_of_current? current

theorem requestChange_absent (none : ∀ name a, p.current? = some (name, a) → a.length ≤ index) :
    p.requestChange index v now = (false, p) := by
  unfold requestChange
  split
  · rfl
  · next name a current => rw [if_neg (Nat.not_lt.mpr (none name a current))]

theorem requestChange_present (current : p.current? = some (name, a)) (inside : index < a.length) :
    (p.requestChange index v now).1 = true ∧
      (p.requestChange index v now).2.source =
        WriteBack.write p.source name index (v.coerce a.kind) ∧
      (p.requestChange index v now).2.mode = p.mode ∧
      (p.requestChange index v now).2.preferred = some name := by
  simp only [requestChange, current, inside, if_true]
  exact ⟨trivial, setText_frame _ now _⟩

theorem exists_index (found : (Program.ofSource p.source).environment.get? name = some a)
    (inside : index < a.length) (held : (Text.byteSize p.source : Int) ≤ Word.greatest) :
    ∃ i : Int64, i.toInt = index := by
  have elements := Environment.get?_of_all (Program.length_environment p.source) found
  have bytes := Text.length_le_byteSize p.source
  exact Word.exists_toInt_eq (by omega)

theorem written_of_current (h : Coherent p) (live : p.mode = .live)
    (current : p.current? = some (name, a)) (inside : index < a.length)
    (noKeyword : ∀ k : Kind, name ≠ k.keyword) (writable : v.Writable)
    (held : (Text.byteSize p.source : Int) ≤ Word.greatest) :
    Program.Written name index v (Program.ofSource p.source)
      (Program.ofSource (WriteBack.write p.source name index v)) := by
  have found := found_of_current h live current
  obtain ⟨i, here⟩ := exists_index found inside held
  have isName := Environment.get?_of_all
    (Program.isName_environment (List.Subset.refl (Program.ofSource p.source))) found
  exact WriteBack.written_ofSource ⟨isName, noKeyword⟩ writable here (Program.ne_nil_of_get? found)

/-- What the source is replayed to once a value of the right kind is written to it. A string takes less
than `2 ^ 63` bytes, so every position in an array of the source can be written. -/
theorem replay_write (h : Coherent p) (live : p.mode = .live)
    (current : p.current? = some (name, a)) (inside : index < a.length)
    (noKeyword : ∀ k : Kind, name ≠ k.keyword) (writable : v.Writable) (kind : v.kind = a.kind)
    (held : (Text.byteSize p.source : Int) ≤ Word.greatest) :
    let program := Program.ofSource (WriteBack.write p.source name index v)
    program.environment = p.environment.replace name index v ∧
      program.replay.diagnostics = p.validate.diagnostics := by
  have found := found_of_current h live current
  have written := written_of_current h live current inside noKeyword writable held
  rw [environment_live h live, validate_eq h]
  exact Program.replay_of_written written found inside kind

theorem replaced_of_current (h : Coherent p) (live : p.mode = .live)
    (current : p.current? = some (name, a)) (inside : index < a.length)
    (noKeyword : ∀ k : Kind, name ≠ k.keyword) (writable : (v.coerce a.kind).Writable)
    (held : (Text.byteSize p.source : Int) ≤ Word.greatest) (now : Time) :
    (p.requestChange index v now).2.environment =
        p.environment.replace name index (v.coerce a.kind) ∧
      (p.requestChange index v now).2.validate.diagnostics = p.validate.diagnostics := by
  obtain ⟨-, source, mode, -⟩ := @requestChange_present p index v now name a current inside
  have next := coherent_requestChange h index v now
  obtain ⟨replaced, silent⟩ :=
    replay_write h live current inside noKeyword writable (Value.kind_coerce a.kind v) held
  rw [← source] at replaced silent
  constructor
  · rw [environment_live next (mode.trans live)]
    exact replaced
  · rw [validate_eq next]
    exact silent

/-- An element of an array that has a keyword for its name is written back in vain: the change is
reported as done, and nothing is different. -/
theorem requestChange_keyword (h : Coherent p) (live : p.mode = .live) {k : Kind}
    (current : p.current? = some (k.keyword, a)) (inside : index < a.length)
    (writable : (v.coerce a.kind).Writable) (now : Time) :
    (p.requestChange index v now).1 = true ∧
      (p.requestChange index v now).2.environment = p.environment ∧
      (p.requestChange index v now).2.validate.diagnostics = p.validate.diagnostics := by
  obtain ⟨done, source, mode, -⟩ := @requestChange_present p index v now _ a current inside
  have next := coherent_requestChange h index v now
  have found := found_of_current h live current
  have filled := Program.ne_nil_of_get? found
  obtain ⟨rest, program, unread⟩ := WriteBack.ofSource_write_keyword k index writable filled
  rw [← source] at program
  have same := Program.replay_append_unreadable (Program.ofSource p.source) unread
  rw [← program] at same
  refine ⟨done, ?_, ?_⟩
  · rw [environment_live next (mode.trans live), environment_live h live,
      ← Program.environment_replay, ← Program.environment_replay]
    exact congrArg Replay.environment same
  · rw [validate_eq next, validate_eq h]
    exact congrArg Replay.diagnostics same

/-- An element that is changed live is replaced, and nothing else in the environment or among the
diagnostics changes; without such an element nothing happens at all. -/
theorem requestChange_replaces (source : Text) (settings : Settings) (actions : List Action)
    (index : Nat) (v : Value) (now : Time)
    (live : ((ofSource source settings).after actions).mode = .live) :
    let p := (ofSource source settings).after actions
    let q := (p.requestChange index v now).2
    ((∀ name a, p.current? = some (name, a) → a.length ≤ index) →
        p.requestChange index v now = (false, p)) ∧
      ∀ name a, p.current? = some (name, a) → index < a.length →
        (p.requestChange index v now).1 = true ∧
          ((∀ k : Kind, name ≠ k.keyword) → (v.coerce a.kind).Writable →
            (Text.byteSize p.source : Int) ≤ Word.greatest →
            q.environment.names = p.environment.names ∧
              q.environment.get? name =
                some ⟨a.kind, a.elements.set index (v.coerce a.kind)⟩ ∧
              (∀ other, other ≠ name → q.environment.get? other = p.environment.get? other) ∧
              q.current? = some (name, ⟨a.kind, a.elements.set index (v.coerce a.kind)⟩) ∧
              q.validate.diagnostics = p.validate.diagnostics) := by
  intro p q
  have h : Coherent p := coherent_after (coherent_ofSource source settings) actions
  refine ⟨requestChange_absent, fun name a current inside => ?_⟩
  obtain ⟨done, -, -, preferred⟩ := @requestChange_present p index v now name a current inside
  refine ⟨done, fun noKeyword writable held => ?_⟩
  obtain ⟨replaced, silent⟩ :=
    replaced_of_current h live current inside noKeyword writable held now
  have element : q.environment.get? name =
      some ⟨a.kind, a.elements.set index (v.coerce a.kind)⟩ := by
    rw [replaced, Environment.get?_replace_self, Environment.get?_of_current? current]
    rfl
  refine ⟨?_, element, fun other apart => ?_, ?_, silent⟩
  · rw [replaced, Environment.names_replace]
  · rw [replaced, Environment.get?_replace_of_ne apart]
  · rw [current?, preferred]
    exact Environment.current?_of_get? element

theorem requestChange_replaces_second :
    let p := (ofSource "int a[2] = {1, 2};\na[1] = 5;".toList {}).after
      [.toggleMode 0, .stepForward, .toggleMode 1]
    p.mode = .live ∧ (p.requestChange 1 (.int 7) 2).2.environment.get? ['a'] =
      some ⟨.int, [.int 1, .int 7]⟩ := by
  intro p
  have live : p.mode = .live := by decide +kernel
  have current : p.current? = some (['a'], ⟨.int, [.int 1, .int 5]⟩) := by decide +kernel
  have noKeyword : ∀ k : Kind, ['a'] ≠ k.keyword := by
    intro k
    cases k <;> decide
  have present := (requestChange_replaces _ {} _ 1 (.int 7) 2 live).2 ['a'] _ current (by decide +kernel)
  obtain ⟨-, element, -⟩ := present.2 noKeyword trivial (by decide +kernel)
  exact ⟨live, element⟩

end Playback
end ArrayReplay
