import Mathlib
import ScopedC.Cli.Directory
import ScopedC.Proofs.Notes
import ScopedC.Proofs.Reading
import ScopedC.Proofs.Parser.Run
namespace ScopedC

namespace Cli

-- The library's start is the run's start with the built-ins' notes put back before its log.
theorem initialState_eq_prependNotes :
    ParseState.prependNotes (Program.initialState true).notes
      { Program.initialState true with notes := #[] } = Program.initialState true := by
  simp [ParseState.prependNotes]

-- The parse a run makes reads the program the library reads, and fails alike.
theorem parseLogged_root (src : String) :
    (parseLogged src).2.map Program.root = (Program.ofSource true src).map Program.root := by
  unfold parseLogged Program.ofSource
  cases Token.scan src with
  | error e => rfl
  | ok toks =>
    dsimp only
    rw [Program.ofTokens_eq_parseFrom]
    have start := parseFrom_prependNotes (Program.initialState true).notes
      { Program.initialState true with notes := #[] } toks
    rw [initialState_eq_prependNotes] at start
    rw [start]
    -- the run from the start without the built-ins' notes is the list parse from there
    cases hr : Program.run { Program.initialState true with notes := #[] } toks with
    | ok r => simp [Program.run_ok hr, prepended, Program.prependNotes, Except.map, Except.mapError]
    | error f =>
      obtain ⟨e, he, herr, -⟩ := Program.run_error hr
      simp [he, herr, prepended, Failure.prependNotes, Except.map, Except.mapError]

theorem compile_of_ofSource_error {o : Options} {src : String} {e : ParseError}
    (h : Program.ofSource true src = .error e) : (compile o src).2 = .error e := by
  have hlog : (parseLogged src).2 = .error e := by
    have hroot := parseLogged_root src
    rw [h] at hroot
    exact map_eq_error hroot
  unfold compile
  rcases hp : parseLogged src with ⟨more, r⟩
  rw [hp] at hlog
  dsimp only at hlog
  subst hlog
  cases o.tokens with
  | false => rfl
  | true =>
    -- the listing lexes the source too, and fails exactly when the parse fails to lex it
    cases hscan : Token.scan src with
    | ok toks => simp
    | error le =>
      have hle : e = .lex le := by simpa [Program.ofSource, hscan] using h.symm
      simp [hle]

theorem compile_of_ofSource_ok {o : Options} {src : String} {p : Program}
    (h : Program.ofSource true src = .ok p) :
    ∃ listing, Token.listing src = .ok listing ∧
      (compile o src).2 = .ok ((if o.tokens then listing else "") ++ (if o.ast then p.trace else "")) := by
  -- a parse that succeeds lexed the source
  obtain ⟨toks, hscan⟩ : ∃ toks, Token.scan src = .ok toks := by
    cases hscan : Token.scan src with
    | error le => simp [Program.ofSource, hscan] at h
    | ok toks => exact ⟨toks, rfl⟩
  -- and the run's parse read the same program, so it traces alike
  obtain ⟨p', hlog, htrace⟩ : ∃ p', (parseLogged src).2 = .ok p' ∧ p'.trace = p.trace := by
    have hroot := parseLogged_root src
    rw [h] at hroot
    rcases hp : (parseLogged src).2 with e' | p'
    · rw [hp] at hroot
      cases hroot
    · rw [hp] at hroot
      have hsame : p'.root = p.root := by simpa [Except.map] using hroot
      exact ⟨p', rfl, by rw [Program.trace, Program.trace, hsame]⟩
  refine ⟨Token.listText toks, by rw [Token.listing, hscan]; rfl, ?_⟩
  unfold compile
  rcases hp : parseLogged src with ⟨more, r⟩
  rw [hp] at hlog
  dsimp only at hlog
  subst hlog
  cases o.tokens <;> cases o.ast <;> simp [hscan, htrace]

section

variable {σ : Type} {readAt : σ → String → Except FileError String}
  {writeAt : σ → String → String → Except FileError σ} {o : Options} {d : σ} {src : String}

-- A run on a file system held as a state: it reads the input, compiles it, and writes only
-- what a successful compile gives.
theorem run_readFrom_writeTo (hread : readAt d o.input = .ok src) :
    (run o (readFrom readAt) (writeTo writeAt)).run d =
      match (compile o src).2 with
      | .error e => (⟨(compile o src).1, some (.parse e)⟩, d)
      | .ok text =>
        match writeAt d o.output text with
        | .error e => (⟨(compile o src).1, some (.write o.output e)⟩, d)
        | .ok d' => (⟨(compile o src).1.push ⟨.info, runTarget, s!"wrote {o.output}"⟩, none⟩, d') := by
  simp [run, readFrom, writeTo, hread]
  rcases compile o src with ⟨records, e | text⟩
  · rfl
  · -- `pure` in the identity monad is the value itself
    cases hw : writeAt d o.output text <;> simp [StateT.run_bind, hw] <;> rfl

theorem run_of_compile_error {e : ParseError} (hread : readAt d o.input = .ok src)
    (hc : (compile o src).2 = .error e) :
    ((run o (readFrom readAt) (writeTo writeAt)).run d).1.failure = some (.parse e) ∧
      ((run o (readFrom readAt) (writeTo writeAt)).run d).2 = d := by
  rw [run_readFrom_writeTo hread, hc]
  exact ⟨rfl, rfl⟩

theorem run_of_compile_ok {text : String} {d' : σ} (hread : readAt d o.input = .ok src)
    (hc : (compile o src).2 = .ok text) (hw : writeAt d o.output text = .ok d') :
    ((run o (readFrom readAt) (writeTo writeAt)).run d).1.failure = none ∧
      ((run o (readFrom readAt) (writeTo writeAt)).run d).2 = d' := by
  rw [run_readFrom_writeTo hread, hc]
  dsimp only
  rw [hw]
  exact ⟨rfl, rfl⟩

-- The output file is written exactly when the parse succeeds, and then holds the listings asked for.
theorem run_writes_all_or_nothing (hread : readAt d o.input = .ok src)
    (hwrite : ∀ text, ∃ d', writeAt d o.output text = .ok d') :
    let r := (run o (readFrom readAt) (writeTo writeAt)).run d
    (∀ p, Program.ofSource true src = .ok p →
      ∃ listing, Token.listing src = .ok listing ∧ r.1.failure = none ∧
        writeAt d o.output ((if o.tokens then listing else "") ++ (if o.ast then p.trace else "")) =
          .ok r.2) ∧
    (∀ e, Program.ofSource true src = .error e → r.1.failure = some (.parse e) ∧ r.2 = d) := by
  refine ⟨fun p hp => ?_, fun e he => run_of_compile_error hread (compile_of_ofSource_error he)⟩
  obtain ⟨listing, hl, hc⟩ := compile_of_ofSource_ok (o := o) hp
  obtain ⟨d', hw⟩ := hwrite ((if o.tokens then listing else "") ++ (if o.ast then p.trace else ""))
  obtain ⟨hnone, hstate⟩ := run_of_compile_ok hread hc hw
  exact ⟨listing, hl, hnone, hstate ▸ hw⟩

end

-- Writing a new file where a path leads into the working directory.
theorem Directory.write_new {d : Directory} {path name text : String} {parts : List String}
    (hloc : d.locate path = .ok ⟨.here parts, name, false⟩)
    (hnew : d.entry (.here parts) name = .ok none) :
    d.write path text = .ok (d.set (parts ++ [name]) (.file text.toUTF8)) := by
  rw [Directory.write, hloc]
  dsimp only [bind, Except.bind]
  rw [hnew]
  rfl

-- The directory of the example below holds the file `in` with `;` in it, and no `out`.
theorem semicolon_read : (⟨[(["in"], .file ";".toUTF8)]⟩ : Directory).read "in" = .ok ";" := by
  cbv

theorem semicolon_locate_output :
    (⟨[(["in"], .file ";".toUTF8)]⟩ : Directory).locate "out" = .ok ⟨.here [], "out", false⟩ := by
  cbv

theorem semicolon_output_new :
    (⟨[(["in"], .file ";".toUTF8)]⟩ : Directory).entry (.here []) "out" = .ok none := by
  cbv

theorem semicolon_run_writes :
    let d : Directory := ⟨[(["in"], .file ";".toUTF8)]⟩
    let o : Options := ⟨"in", "out", true, true⟩
    let r := (run o (readFrom Directory.read) (writeTo Directory.write)).run d
    d.read o.input = .ok ";" ∧ (∀ text, ∃ d', d.write o.output text = .ok d') ∧
    ((∀ p, Program.ofSource true ";" = .ok p →
      ∃ listing, Token.listing ";" = .ok listing ∧ r.1.failure = none ∧
        d.write o.output ((if o.tokens then listing else "") ++ (if o.ast then p.trace else "")) =
          .ok r.2) ∧
    (∀ e, Program.ofSource true ";" = .error e → r.1.failure = some (.parse e) ∧ r.2 = d)) :=
  have hwrite : ∀ text, ∃ d', (⟨[(["in"], .file ";".toUTF8)]⟩ : Directory).write "out" text =
      .ok d' :=
    fun _ => ⟨_, Directory.write_new semicolon_locate_output semicolon_output_new⟩
  ⟨semicolon_read, hwrite, run_writes_all_or_nothing semicolon_read hwrite⟩

end Cli

end ScopedC
