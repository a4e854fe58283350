import Mathlib.Data.List.Basic
import Schematic.Cli.Options

/-!
# Asking for strictness in front of other arguments

Arguments that are good without `--strict` are good after it, and ask for the same but strictly. This is
seen by following two readers side by side, one of which was given the setting before all else.

* `Draft.accept_eq_ok_iff`: **all that it takes to accept a setting.**
* `Draft.strictly`, `Reader.strictly`: what is read, if strictness was asked for before.
* `Reader.Parallel`: a step of reading that then goes the same way. So does every argument
  (`parallel_argument`), and hence all of them (`Parallel.foldlM`).
* `Options.read_strict_cons`: **asking for strictness in front adds strictness and nothing else.**
-/

namespace Schematic.Cli

theorem bind_eq_ok_iff {ε α β : Type} {x : Except ε α} {f : α → Except ε β} {b : β} :
    x >>= f = .ok b ↔ ∃ a, x = .ok a ∧ f a = .ok b := by
  cases x <;> simp [bind, Except.bind]

theorem guard_eq_ok_iff {p : Prop} [Decidable p] {ε β : Type} {e : ε} {f : Unit → Except ε β} {b : β} :
    (if p then (throw e : Except ε Unit) >>= f else f ()) = .ok b ↔ ¬p ∧ f () = .ok b := by
  by_cases hp : p
  · rw [if_pos hp]
    refine iff_of_false (fun h => ?_) fun h => h.1 hp
    cases h
  · rw [if_neg hp]
    exact (and_iff_right hp).symm

theorem mapError_eq_ok_iff {ε ε' α : Type} {f : ε → ε'} {x : Except ε α} {a : α} :
    x.mapError f = .ok a ↔ x = .ok a := by
  cases x <;> simp [Except.mapError]

/-! ## One setting -/

namespace Draft

variable {d d' : Draft} {s : Setting} {value : Option String}

/-- The draft, with one more setting on its list. -/
def note (d : Draft) (s : Setting) : Draft := { d with given := d.given ++ [s] }

/-- The effect of a setting, with a value or without. -/
def effect (d : Draft) (s : Setting) : Option String → Except UsageError Draft
  | some v => d.take s v
  | none => .ok (d.raise s)

/-- **All that it takes to accept a setting**: it is none that ends the reading, it has a value if it takes
one, it was not given before unless it may be repeated, and its effect is defined. -/
theorem accept_eq_ok_iff : d.accept s value = .ok d' ↔ s ≠ .help ∧ s ≠ .version ∧
    (s.takesValue = true → value ≠ none) ∧ (s.repeats = false → s ∉ d.given) ∧
    (d.note s).effect s value = .ok d' := by
  unfold accept
  rw [guard_eq_ok_iff, guard_eq_ok_iff, guard_eq_ok_iff, guard_eq_ok_iff]
  have hmissing : ¬(s.takesValue && value.isNone) = true ↔ (s.takesValue = true → value ≠ none) := by simp
  have hrepeated : ¬(!s.repeats && d.given.contains s) = true ↔ (s.repeats = false → s ∉ d.given) := by simp
  rw [hmissing, hrepeated]
  refine and_congr_right fun _ => and_congr_right fun _ => and_congr_right fun _ =>
    and_congr_right fun _ => ?_
  cases value with
  | some v => exact mapError_eq_ok_iff
  | none => simp [effect, note, pure, Except.pure]

/-- The draft, if strictness had been asked for before all else. -/
def strictly (d : Draft) : Draft := { d with strict := true, given := .strict :: d.given }

/-- A value has its effect whatever was given before, and does not touch strictness. -/
theorem take_strictly {v : String} (h : d.take s v = .ok d') :
    d'.strict = d.strict ∧ d.strictly.take s v = .ok d'.strictly := by
  cases s with
  | script =>
    simp only [take] at h ⊢
    split at h
    · cases h
    · rename_i hv
      cases h
      exact ⟨rfl, if_neg hv⟩
  | set =>
    simp only [take] at h ⊢
    cases hread : Assignment.read v with
    | error e => rw [hread] at h; cases h
    | ok a =>
      rw [hread] at h
      cases h
      exact ⟨rfl, rfl⟩
  | maxIterations =>
    simp only [take] at h ⊢
    cases hread : Text.natural capLimit v.toList with
    | error e => rw [hread] at h; cases h
    | ok n =>
      rw [hread] at h
      cases h
      exact ⟨rfl, rfl⟩
  | format =>
    simp only [take] at h ⊢
    split at h <;> cases h <;> exact ⟨rfl, rfl⟩
  | demo | listDemos | strict | fmt | verbose | help | version =>
    cases h
    exact ⟨rfl, rfl⟩

theorem raise_strictly (hs : s ≠ .strict) :
    (d.raise s).strict = d.strict ∧ d.strictly.raise s = (d.raise s).strictly := by
  cases s with
  | strict => exact absurd rfl hs
  | _ => exact ⟨rfl, rfl⟩

theorem effect_strictly (hs : s ≠ .strict) (h : d.effect s value = .ok d') :
    d'.strict = d.strict ∧ d.strictly.effect s value = .ok d'.strictly := by
  cases value with
  | some v => exact take_strictly h
  | none =>
    obtain ⟨hkept, hraise⟩ := raise_strictly (d := d) hs
    cases h
    exact ⟨hkept, congrArg Except.ok hraise⟩

/-- A setting is accepted alike after strictness, unless it is strictness itself. -/
theorem accept_strictly (hvalue : value ≠ none → s.takesValue = true) (h : d.accept s value = .ok d')
    (hd : d'.strict = false) : d.strict = false ∧ d.strictly.accept s value = .ok d'.strictly := by
  obtain ⟨hhelp, hversion, hmissing, hrepeated, heffect⟩ := accept_eq_ok_iff.1 h
  have hs : s ≠ .strict := by
    rintro rfl
    -- strictness takes no value, so it is raised, and stays
    cases value with
    | some v => exact absurd (hvalue (by simp)) (by decide)
    | none =>
      cases heffect
      cases hd
  obtain ⟨hkept, hstrictly⟩ := effect_strictly hs heffect
  refine ⟨hkept.symm.trans hd, accept_eq_ok_iff.2 ⟨hhelp, hversion, hmissing, ?_, hstrictly⟩⟩
  intro honce hmem
  rcases List.mem_cons.1 hmem with heq | hmem
  · exact hs heq
  · exact hrepeated honce hmem

end Draft

/-! ## Arguments -/

namespace Reader

variable {r r' : Reader} {f g : Reader → Except Stop Reader} {s : Setting} {value : Option String}

/-- What waits for a value, or has one that is still to be checked, is a setting that takes a value. -/
def Sound (r : Reader) : Prop := ∀ s value, r.pending = some (s, value) → s.takesValue = true

/-- Where reading stands, if strictness had been asked for before all else. -/
def strictly (r : Reader) : Reader := { r with draft := r.draft.strictly }

/-- A step of reading that goes the same way after strictness, unless it asks for strictness itself. -/
def Parallel (f : Reader → Except Stop Reader) : Prop :=
  ∀ r r', r.Sound → f r = .ok r' → r'.Sound ∧
    (r'.draft.strict = false → r.draft.strict = false ∧ f r.strictly = .ok r'.strictly)

theorem parallel_ok : Parallel .ok := by
  intro r r' hr h
  cases h
  exact ⟨hr, fun hlenient => ⟨hlenient, rfl⟩⟩

/-- Steps are followed side by side one after the other. -/
theorem Parallel.bind (hf : Parallel f) (hg : Parallel g) : Parallel fun r => f r >>= g := by
  intro r r' hr h
  obtain ⟨m, hm, hrest⟩ := bind_eq_ok_iff.1 h
  obtain ⟨hmsound, hfirst⟩ := hf r m hr hm
  obtain ⟨hsound, hsecond⟩ := hg m r' hmsound hrest
  refine ⟨hsound, fun hlenient => ?_⟩
  obtain ⟨hmlenient, hgo⟩ := hsecond hlenient
  obtain ⟨hrlenient, hstart⟩ := hfirst hmlenient
  exact ⟨hrlenient, bind_eq_ok_iff.2 ⟨m.strictly, hstart, hgo⟩⟩

theorem Parallel.foldlM {step : Reader → String → Except Stop Reader}
    (h : ∀ a, Parallel fun r => step r a) (arguments : List String) :
    Parallel fun r => arguments.foldlM step r := by
  induction arguments with
  | nil => exact parallel_ok
  | cons a arguments ih =>
    simp only [List.foldlM_cons]
    exact (h a).bind ih

/-- A step that leaves the draft alone. -/
theorem parallel_set {set : Reader → Reader} (hsound : ∀ r, r.Sound → (set r).Sound)
    (hset : ∀ r, set r.strictly = (set r).strictly) (hdraft : ∀ r, (set r).draft = r.draft) :
    Parallel fun r => .ok (set r) := by
  intro r r' hr h
  cases h
  refine ⟨hsound r hr, fun hlenient => ⟨?_, congrArg Except.ok (hset r)⟩⟩
  rwa [hdraft] at hlenient

theorem parallel_accept (hvalue : value ≠ none → s.takesValue = true) :
    Parallel fun r => do return { r with draft := ← r.draft.accept s value } := by
  intro r r' hr h
  obtain ⟨d, hd, h⟩ := bind_eq_ok_iff.1 h
  cases h
  refine ⟨hr, fun hlenient => ?_⟩
  obtain ⟨hkept, hstrictly⟩ := Draft.accept_strictly hvalue hd hlenient
  exact ⟨hkept, bind_eq_ok_iff.2 ⟨d.strictly, hstrictly, rfl⟩⟩

theorem sound_of_pending_eq_none (h : r.pending = none) : r.Sound := by
  intro s value hpending
  rw [h] at hpending
  cases hpending

theorem parallel_settle : Parallel settle := by
  intro r r' hr h
  cases hpending : r.pending with
  | none =>
    have hsame : ∀ t : Reader, t.pending = none → t.settle = .ok t := by
      intro t ht
      rw [settle, ht]
    rw [hsame r hpending] at h
    rw [hsame r.strictly hpending]
    exact parallel_ok r r' hr h
  | some waiting =>
    obtain ⟨s, value⟩ := waiting
    have htakes : s.takesValue = true := hr s value hpending
    have hstep : ∀ t : Reader, t.pending = some (s, value) → t.settle =
        (do return { t with draft := ← t.draft.accept s value }) >>= fun t =>
          .ok { t with pending := none } := by
      intro t ht
      simp only [settle, ht, bind_assoc, pure_bind]
      rfl
    have hclear : Parallel fun t => .ok { t with pending := none } :=
      parallel_set (fun _ _ => sound_of_pending_eq_none rfl) (fun _ => rfl) fun _ => rfl
    rw [hstep r hpending] at h
    rw [hstep r.strictly hpending]
    exact (parallel_accept fun _ => htakes).bind hclear r r' hr h

theorem parallel_give (hvalue : value ≠ none → s.takesValue = true) : Parallel fun r => r.give s value :=
  parallel_settle.bind (parallel_accept hvalue)

/-- A setting that takes a value is left waiting, with the value or without. -/
theorem parallel_pending (hs : s.takesValue = true) (value : Option String) (fileSeen : Reader → Bool)
    (hseen : ∀ r, fileSeen r.strictly = fileSeen r) :
    Parallel fun r => .ok { r with pending := some (s, value), fileSeen := fileSeen r } := by
  refine parallel_set (fun r _ s' value' hpending => ?_) (fun r => ?_) fun _ => rfl
  · cases hpending
    exact hs
  · rw [hseen]
    rfl

theorem parallel_await (hs : s.takesValue = true) : Parallel fun r => r.await s :=
  parallel_settle.bind (parallel_pending hs none (·.fileSeen) fun _ => rfl)

theorem parallel_letters (cs : List Char) : Parallel (letters cs) := by
  induction cs with
  | nil => exact parallel_ok
  | cons c cs ih =>
    change Parallel fun r => letters (c :: cs) r
    simp only [letters]
    cases Setting.ofLetter? c with
    | none =>
      intro r r' hr h
      cases h
    | some s =>
      simp only
      cases htakes : s.takesValue with
      | true =>
        simp only [if_true]
        split
        · exact parallel_await htakes
        · exact parallel_give fun _ => htakes
        · exact parallel_give fun _ => htakes
      | false =>
        simp only [Bool.false_eq_true, if_false]
        exact (parallel_give fun hnone => absurd rfl hnone).bind ih

theorem parallel_long (name : List Char) (value : Option (List Char)) :
    Parallel fun r => r.long name value := by
  unfold long
  cases Setting.ofName? (String.ofList name) with
  | none =>
    intro r r' hr h
    cases h
  | some s =>
    simp only
    cases htakes : s.takesValue with
    | true =>
      cases value with
      | none => exact parallel_await htakes
      | some v => exact parallel_give fun _ => htakes
    | false =>
      cases value with
      | none => exact parallel_give fun hnone => absurd rfl hnone
      | some v =>
        intro r r' hr h
        cases h

theorem parallel_file (path : String) : Parallel fun r => r.file path := by
  intro r r' hr h
  have hseen : r.strictly.fileSeen = r.fileSeen := rfl
  simp only [file, hseen] at h ⊢
  cases hplace : r.fileSeen with
  | true =>
    rw [hplace] at h
    cases h
  | false =>
    rw [hplace] at h
    have hwait : Parallel fun r => .ok { r with pending := some (.script, some path), fileSeen := true } :=
      parallel_pending rfl (some path) (fun _ => true) fun _ => rfl
    exact parallel_settle.bind hwait r r' hr h

theorem parallel_plain (a : String) : Parallel fun r => r.plain a := by
  intro r r' hr h
  have hpending : r.strictly.pending = r.pending := rfl
  simp only [plain, hpending] at h ⊢
  split at h
  · rename_i s hwaiting
    have htakes : s.takesValue = true := hr s none hwaiting
    exact parallel_pending htakes (some a) (·.fileSeen) (fun _ => rfl) r r' hr h
  · exact parallel_file a r r' hr h

/-- **Every argument is read alike after strictness**, unless it asks for strictness itself. -/
theorem parallel_argument (a : String) : Parallel fun r => r.argument a := by
  intro r r' hr h
  have hfiles : r.strictly.filesOnly = r.filesOnly := rfl
  simp only [argument, hfiles] at h ⊢
  cases honly : r.filesOnly with
  | true =>
    rw [honly] at h
    exact parallel_file a r r' hr h
  | false =>
    rw [honly] at h
    simp only [Bool.false_eq_true, if_false] at h ⊢
    cases htoken : Token.read a.toList with
    | separator =>
      rw [htoken] at h
      have hset : Parallel fun r => .ok { r with filesOnly := true } :=
        parallel_set (fun _ hr => hr) (fun _ => rfl) fun _ => rfl
      exact hset r r' hr h
    | long name value =>
      rw [htoken] at h
      exact parallel_long name value r r' hr h
    | letters cs =>
      rw [htoken] at h
      exact parallel_letters cs r r' hr h
    | plain =>
      rw [htoken] at h
      exact parallel_plain a r r' hr h

end Reader

/-- The same options, strictly or not. -/
def Options.withStrict (o : Options) (strict : Bool) : Options := { o with strict }

/-- Settings that go together say alike what to do after strictness. -/
theorem Draft.finish_strictly {d : Draft} {o : Options} (h : d.finish = .ok o) :
    o.strict = d.strict ∧ d.strictly.finish = .ok (o.withStrict true) := by
  have hgiven : d.strictly.given.filter (fun s => s = .script || s = .demo) =
      d.given.filter fun s => s = .script || s = .demo := List.filter_cons_of_neg (by decide)
  unfold finish at h ⊢
  rw [hgiven]
  split at h
  · cases h
  · -- what to do is read off the same three fields
    have hlist : d.strictly.listDemos = d.listDemos := rfl
    have hdemo : d.strictly.demo = d.demo := rfl
    have hscript : d.strictly.script = d.script := rfl
    simp only [hlist, hdemo, hscript]
    split at h <;> cases h <;> exact ⟨rfl, rfl⟩

theorem Reader.argument_strict : start.argument "--strict" = .ok start.strictly := by
  have htoken : Token.read "--strict".toList = .long "strict".toList none := by decide
  rw [argument, htoken]
  rfl

/-- **Asking for strictness in front adds strictness and nothing else.** -/
theorem Options.read_strict_cons {arguments : List String} {o : Options} (h : read arguments = .ok o)
    (ho : o.strict = false) : read ("--strict" :: arguments) = .ok (o.withStrict true) := by
  unfold read at h ⊢
  obtain ⟨r, hread, h⟩ := bind_eq_ok_iff.1 h
  obtain ⟨r', hsettle, hfinish⟩ := bind_eq_ok_iff.1 h
  obtain ⟨hkept, hstrictly⟩ := Draft.finish_strictly hfinish
  have hlenient : r'.draft.strict = false := hkept.symm.trans ho
  have hparallel := (Reader.Parallel.foldlM Reader.parallel_argument arguments).bind Reader.parallel_settle
  obtain ⟨-, hfollow⟩ := hparallel .start r' (Reader.sound_of_pending_eq_none rfl)
    (bind_eq_ok_iff.2 ⟨r, hread, hsettle⟩)
  obtain ⟨m, hm, hgo⟩ := bind_eq_ok_iff.1 (hfollow hlenient).2
  rw [List.foldlM_cons, Reader.argument_strict]
  exact bind_eq_ok_iff.2 ⟨m, hm, bind_eq_ok_iff.2 ⟨r'.strictly, hgo, hstrictly⟩⟩

end Schematic.Cli
