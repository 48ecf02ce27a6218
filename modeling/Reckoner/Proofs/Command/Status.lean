import Reckoner.Proofs.Command.Modes
import Reckoner.Proofs.Transcript.Unreadable

/-!
# Command.Status — when a command is refused

A command is refused for its square root symbol if it evaluates anything, for a line that is no text if it reads that
line, and for a topic that nobody knows (`Stops`).  Nothing else makes the status 1, whatever the evaluations come to,
and what has been printed by then is what was evaluated before (`run_status`).
-/
namespace Reckoner
namespace Command

open Transcript

def isText (line : List UInt8) : Bool := (decode line).isSome

theorem isText_iff {line : List UInt8} : isText line = true ↔ decode line ≠ none := Option.isSome_iff_ne_none

theorem isText_eq_false_iff {line : List UInt8} : isText line = false ↔ decode line = none :=
  Option.isSome_eq_false_iff.trans Option.isNone_iff_eq_none

/-! ## Causes -/

/-- An action that evaluates lines. -/
def Action.evaluates : Action → Bool
  | .firstLine | .evaluate _ | .lines => true
  | .overview | .topic _ => false

/-- **What stops a command**, and how that is put. -/
inductive Stops (input : List UInt8) : Request → Refusal → Prop where
  | reserved (action : Action) (o : Options) (h : action.evaluates = true) (hsymbol : o.settings.isValid = false) :
    Stops input (.perform action o) (.reservedSymbol o.settings.rootSymbol)
  | firstLine (o : Options) (line : List UInt8) (h : (lines input).head? = some line) (hline : decode line = none) :
    Stops input (.perform .firstLine o) .unreadable
  | line (o : Options) (line : List UInt8) (h : line ∈ lines input) (hline : decode line = none) :
    Stops input (.perform .lines o) .unreadable
  | topic (o : Options) (name : String) (h : Topic.ofName? name = none) :
    Stops input (.perform (.topic name) o) (.unknownTopic name)

/-- **What has been printed when a command stops**: of a text the answers to the lines before the one that is no text,
and nothing otherwise. -/
def Request.printedBefore (input : List UInt8) : Request → String
  | .perform .lines o =>
    if o.settings.isValid then
      (ofLines o.style o.settings (.new o.settings) ((lines input).takeWhile isText)).output
    else ""
  | _ => ""

/-- A request that a log is kept for.  The log is no part of the complaint (`Outcome`). -/
def Request.isVerbose : Request → Bool
  | .perform _ o => o.verbose
  | .version => false

/-! ## Lines that are no text -/

/-- What is read as a text is its encoding. -/
theorem eq_encode_of_decode {line : List UInt8} {text : String} (h : decode line = some text) :
    line = encode text.toList := by
  unfold decode String.fromUTF8? at h
  split at h
  · cases h
    rw [← bytes_eq_encode]
    rfl
  · cases h

theorem decode_eq_none_iff {line : List UInt8} : decode line = none ↔ ∀ text, line ≠ encode text := by
  constructor
  · rintro h text rfl
    rw [decode_encode] at h
    cases h
  · intro h
    cases hdecode : decode line with
    | none => rfl
    | some text => exact absurd (eq_encode_of_decode hdecode) (h text.toList)

/-- **A line feed makes no text of what is none**, and spoils none. -/
theorem decode_append_lineFeed {line : List UInt8} : decode (line ++ [lineFeed]) = none ↔ decode line = none := by
  have hbyte : encode ['\n'] = [lineFeed] := by decide
  rw [decode_eq_none_iff, decode_eq_none_iff]
  constructor
  · rintro h text rfl
    exact h (text ++ ['\n']) (by rw [encode_append, hbyte])
  · intro h text htext
    -- the last character of the text has a line feed among its bytes, so it is one
    rcases List.eq_nil_or_concat text with rfl | ⟨front, c, rfl⟩
    · simp [encode] at htext
    · rw [List.concat_eq_append, encode_append] at htext
      have hc : encode [c] = String.utf8EncodeChar c := by simp [encode]
      by_cases hfeed : c = '\n'
      · rw [hfeed, hbyte] at htext
        exact h front (List.append_cancel_right htext)
      · refine lineFeed_not_mem_utf8EncodeChar hfeed ?_
        have hlast := congrArg List.getLast? htext
        rw [hc, List.getLast?_concat, List.getLast?_append_of_ne_nil _ String.utf8EncodeChar_ne_nil] at hlast
        exact List.mem_of_getLast? hlast.symm

theorem firstLine_cons_of_ne {b : UInt8} (hb : b ≠ lineFeed) (rest : List UInt8) :
    firstLine (b :: rest) = b :: firstLine rest := by
  have hfront : lineFeed ∉ [b] := fun hmem => hb (List.mem_singleton.1 hmem).symm
  exact firstLine_append hfront rest

/-- The line that is read first is the first one of the lines, perhaps with its line feed. -/
theorem firstLine_cases : ∀ input : List UInt8, (input = [] ∧ firstLine input = []) ∨
    ∃ line more, lines input = line :: more ∧ (firstLine input = line ∨ firstLine input = line ++ [lineFeed])
  | [] => .inl ⟨rfl, rfl⟩
  | b :: rest => by
    right
    by_cases hb : b = lineFeed
    · rw [hb]
      exact ⟨[], lines rest, lines_lineFeed_cons rest, .inr rfl⟩
    · rw [firstLine_cons_of_ne hb, lines_cons_of_ne hb]
      obtain ⟨rfl, hrest⟩ | ⟨line, more, hlines, hfirst⟩ := firstLine_cases rest
      · exact ⟨[b], [], rfl, .inl rfl⟩
      · rw [hlines]
        exact ⟨b :: line, more, rfl, hfirst.imp (congrArg (b :: ·)) (congrArg (b :: ·))⟩

theorem decode_nil : decode [] = some "" := by decide +kernel

theorem decode_firstLine_eq_none_iff {input : List UInt8} :
    decode (firstLine input) = none ↔ ∃ line, (lines input).head? = some line ∧ decode line = none := by
  obtain ⟨rfl, hfirst⟩ | ⟨line, more, hlines, hfirst⟩ := firstLine_cases input
  · simp [hfirst, decode_nil]
  · have hiff : decode (firstLine input) = none ↔ decode line = none := by
      obtain hfirst | hfirst := hfirst
      · rw [hfirst]
      · rw [hfirst, decode_append_lineFeed]
    simp [hiff, hlines]

/-! ## What a command comes to -/

/-- **A run prints what it prints for the lines up to the first that is no text.** -/
theorem output_ofLines_takeWhile (style : Style) (shown : Settings) (c : Calculator) (ls : List (List UInt8)) :
    (ofLines style shown c ls).output = (ofLines style shown c (ls.takeWhile isText)).output := by
  have hsplit := List.takeWhile_append_dropWhile (p := isText) (l := ls)
  have hhead := List.head?_dropWhile_not isText ls
  cases hrest : ls.dropWhile isText with
  | nil =>
    rw [hrest, List.append_nil] at hsplit
    rw [hsplit]
  | cons bad rest =>
    rw [hrest] at hsplit hhead
    have hread : (ofLines style shown c (ls.takeWhile isText)).unreadable = false :=
      (unreadable_ofLines_iff _ c).2 fun line hline => isText_iff.1 (List.mem_takeWhile_imp hline)
    have hrun := ofLines_append_unreadable c hread (isText_eq_false_iff.1 hhead) rest
    rw [hsplit] at hrun
    rw [hrun]
    rfl

theorem eq_unreadable_of_refusal? {t : Transcript} {r : Refusal} (h : t.refusal? = some r) : r = .unreadable := by
  unfold refusal? at h
  split at h <;> cases h
  rfl

section Cases

variable {o : Options} {input : List UInt8}

theorem evaluateLine_cases (o : Options) (line : String) :
    (o.settings.isValid = true ∧ ∃ output, evaluateLine o line = done output) ∨
      (o.settings.isValid = false ∧ evaluateLine o line = refused "" (.reservedSymbol o.settings.rootSymbol)) := by
  cases hvalid : o.settings.isValid with
  | true => exact .inl ⟨rfl, _, evaluateLine_of_isValid hvalid line⟩
  | false =>
    refine .inr ⟨rfl, ?_⟩
    unfold evaluateLine start
    rw [hvalid]
    rfl

/-- **An unreadable line is found before the symbol is looked at.** -/
theorem evaluateFirst_of_decode_eq_none (h : decode (firstLine input) = none) :
    evaluateFirst o input = refused "" .unreadable := by
  unfold evaluateFirst
  rw [h]

/-- **The symbol is looked at before a line is read.** -/
theorem evaluateLines_of_not_isValid (h : o.settings.isValid = false) :
    evaluateLines o input = refused "" (.reservedSymbol o.settings.rootSymbol) := by
  unfold evaluateLines start
  rw [h]
  rfl

theorem evaluateLines_cases (input : List UInt8) (h : o.settings.isValid = true) :
    ((∀ line ∈ lines input, decode line ≠ none) ∧ ∃ output, evaluateLines o input = done output) ∨
      ((∃ line ∈ lines input, decode line = none) ∧ evaluateLines o input =
        refused (ofLines o.style o.settings (.new o.settings) ((lines input).takeWhile isText)).output .unreadable) := by
  have hread : (Transcript.run o.style (.new o.settings) input).refusal? = none ↔
      ∀ line ∈ lines input, decode line ≠ none := refusal?_run_eq_none_iff _ input
  rw [evaluateLines_of_isValid h, ← output_ofLines_takeWhile]
  unfold ofTranscript
  cases hrefusal : (Transcript.run o.style (.new o.settings) input).refusal? with
  | none => exact .inl ⟨hread.1 hrefusal, _, rfl⟩
  | some r =>
    obtain rfl : r = .unreadable := eq_unreadable_of_refusal? hrefusal
    refine .inr ⟨?_, rfl⟩
    by_contra hall
    rw [hread.2 fun line hline hdecode => hall ⟨line, hline, hdecode⟩] at hrefusal
    cases hrefusal

/-- **A command is refused for one of the causes**, with what was printed before, and otherwise it is done. -/
theorem perform_cases (o : Options) (input : List UInt8) (action : Action) :
    (∃ r, Stops input (.perform action o) r ∧
      perform o input action = refused ((Request.perform action o).printedBefore input) r) ∨
    ((∀ r, ¬Stops input (.perform action o) r) ∧ ∃ output, perform o input action = done output) := by
  cases action with
  | firstLine =>
    cases hread : decode (firstLine input) with
    | none =>
      obtain ⟨line, hline, hdecode⟩ := decode_firstLine_eq_none_iff.1 hread
      exact .inl ⟨_, .firstLine o line hline hdecode, evaluateFirst_of_decode_eq_none hread⟩
    | some text =>
      have hfirst : evaluateFirst o input = evaluateLine o text := evaluateFirst_of_decode_eq_some hread
      obtain ⟨hvalid, output, hdone⟩ | ⟨hinvalid, hrefused⟩ := evaluateLine_cases o text
      · refine .inr ⟨fun r hstops => ?_, output, hfirst.trans hdone⟩
        cases hstops with
        | reserved _ _ _ hsymbol => exact Bool.false_ne_true (hsymbol.symm.trans hvalid)
        | firstLine _ line hline hdecode =>
          rw [decode_firstLine_eq_none_iff.2 ⟨line, hline, hdecode⟩] at hread
          cases hread
      · exact .inl ⟨_, .reserved .firstLine o rfl hinvalid, hfirst.trans hrefused⟩
  | evaluate expression =>
    obtain ⟨hvalid, output, hdone⟩ | ⟨hinvalid, hrefused⟩ := evaluateLine_cases o expression
    · refine .inr ⟨fun r hstops => ?_, output, hdone⟩
      cases hstops with
      | reserved _ _ _ hsymbol => exact Bool.false_ne_true (hsymbol.symm.trans hvalid)
    · exact .inl ⟨_, .reserved (.evaluate expression) o rfl hinvalid, hrefused⟩
  | lines =>
    cases hvalid : o.settings.isValid with
    | false =>
      refine .inl ⟨_, .reserved .lines o rfl hvalid, (evaluateLines_of_not_isValid hvalid).trans ?_⟩
      simp [Request.printedBefore, hvalid]
    | true =>
      obtain ⟨hread, output, hdone⟩ | ⟨⟨line, hline, hdecode⟩, hrefused⟩ := evaluateLines_cases input hvalid
      · refine .inr ⟨fun r hstops => ?_, output, hdone⟩
        cases hstops with
        | reserved _ _ _ hsymbol => exact Bool.false_ne_true (hsymbol.symm.trans hvalid)
        | line _ line hline hdecode => exact hread line hline hdecode
      · refine .inl ⟨_, .line o line hline hdecode, hrefused.trans ?_⟩
        simp [Request.printedBefore, hvalid]
  | overview => exact .inr ⟨fun r hstops => by cases hstops; contradiction, _, rfl⟩
  | topic name =>
    cases htopic : Topic.ofName? name with
    | some t =>
      refine .inr ⟨fun r hstops => ?_, t.page, ?_⟩
      · cases hstops with
        | reserved _ _ hevaluates _ => cases hevaluates
        | topic _ _ h => rw [htopic] at h; cases h
      · simp [perform, showTopic, htopic]
    | none =>
      refine .inl ⟨_, .topic o name htopic, ?_⟩
      simp [perform, showTopic, htopic, Request.printedBefore]

end Cases

/-- **The status of a command.**  It is 1 exactly for one of the causes above; then the refusal is what is complained of
and only what was evaluated before has been printed.  In every other case the status is 0, and there is nothing to
complain of; a log or a prompt would be no part of the complaint.  If there are several causes, the program without a
verb complains of the line that it cannot read, and `repl` of the symbol. -/
theorem run_status (words : List String) (input : List UInt8) (request : Request) (h : read words = some request) :
    let outcome := run words input
    (outcome.status = 1 ↔ ∃ r, Stops input request r) ∧
      (outcome.status = 1 → ∃ r, Stops input request r ∧ outcome = refused (request.printedBefore input) r) ∧
      (outcome.status ≠ 1 → outcome.status = 0 ∧ (request.isVerbose = false → outcome.complaint = "")) ∧
      (∀ o, request = .perform .firstLine o → Stops input request .unreadable → outcome = refused "" .unreadable) ∧
      ∀ o, request = .perform .lines o → o.settings.isValid = false →
        outcome = refused "" (.reservedSymbol o.settings.rootSymbol) := by
  intro outcome
  cases request with
  | version =>
    have houtcome : outcome = done version := by
      show run words input = _
      unfold run
      rw [h]
    rw [houtcome]
    refine ⟨⟨nofun, fun ⟨r, hstops⟩ => (by cases hstops)⟩, nofun, fun _ => ⟨rfl, fun _ => rfl⟩, nofun, nofun⟩
  | perform action o =>
    have houtcome : outcome = perform o input action := run_perform h input
    have hfirst : ∀ o', Request.perform action o = .perform .firstLine o' →
        Stops input (.perform action o) .unreadable → perform o input action = refused "" .unreadable := by
      rintro _ ⟨rfl, rfl⟩ hstops
      cases hstops with
      | firstLine _ line hline hdecode =>
        exact evaluateFirst_of_decode_eq_none (decode_firstLine_eq_none_iff.2 ⟨line, hline, hdecode⟩)
    have hlines : ∀ o', Request.perform action o = .perform .lines o' → o'.settings.isValid = false →
        perform o input action = refused "" (.reservedSymbol o'.settings.rootSymbol) := by
      rintro _ ⟨rfl, rfl⟩ hsymbol
      exact evaluateLines_of_not_isValid hsymbol
    rw [houtcome]
    obtain ⟨r, hstops, hrefused⟩ | ⟨hgoes, output, hdone⟩ := perform_cases o input action
    · have hstatus : (perform o input action).status = 1 := congrArg Outcome.status hrefused
      exact ⟨⟨fun _ => ⟨r, hstops⟩, fun _ => hstatus⟩, fun _ => ⟨r, hstops, hrefused⟩, fun hne => absurd hstatus hne,
        hfirst, hlines⟩
    · have hstatus : (perform o input action).status = 0 := congrArg Outcome.status hdone
      have hne : (perform o input action).status ≠ 1 := by
        rw [hstatus]
        decide
      exact ⟨⟨fun h => absurd h hne, fun ⟨r, hstops⟩ => absurd hstops (hgoes r)⟩, fun h => absurd h hne,
        fun _ => ⟨hstatus, fun _ => congrArg Outcome.complaint hdone⟩, hfirst, hlines⟩

/-- A reserved symbol beside a line that is no text, with a verb and without; and the first lines of a text whose third
is no text. -/
theorem run_status_two_causes :
    let input : List UInt8 := [0x31, 0x2f, 0x30, 0x0a, 0x32, 0x0a, 0xff]
    let reserved : Options := { rootSymbol := some 'v' }
    read ["--sqrt-symbol", "v"] = some (.perform .firstLine reserved) ∧
      read ["repl", "--sqrt-symbol=v"] = some (.perform .lines reserved) ∧
      read ["repl"] = some (.perform .lines {}) ∧
      run ["--sqrt-symbol", "v"] (0xff :: input) = refused "" .unreadable ∧
      run ["repl", "--sqrt-symbol=v"] input = refused "" (.reservedSymbol 'v') ∧
      (run ["repl"] input).status = 1 ∧
      ∃ r, Stops input (.perform .lines {}) r ∧ run ["repl"] input = refused "UNKNOWN ERROR\n2\n" r := by
  intro input reserved
  have hfirst : read ["--sqrt-symbol", "v"] = some (.perform .firstLine reserved) := by decide +kernel
  have hlines : read ["repl", "--sqrt-symbol=v"] = some (.perform .lines reserved) := by decide +kernel
  have hplain : read ["repl"] = some (.perform .lines {}) := by decide +kernel
  have hprinted : (Request.perform .lines {}).printedBefore input = "UNKNOWN ERROR\n2\n" := by decide +kernel
  have hfirstStops : Stops (0xff :: input) (.perform .firstLine reserved) .unreadable :=
    .firstLine reserved [0xff, 0x31, 0x2f, 0x30] rfl (by decide +kernel)
  have hplainStops : Stops input (.perform .lines {}) .unreadable :=
    .line {} [0xff] (by decide) (by decide +kernel)
  obtain ⟨-, -, -, hunread, -⟩ := run_status _ (0xff :: input) _ hfirst
  obtain ⟨-, -, -, -, hreserved⟩ := run_status _ input _ hlines
  obtain ⟨hiff, hrefused, -⟩ := run_status _ input _ hplain
  have hstatus : (run ["repl"] input).status = 1 := hiff.2 ⟨_, hplainStops⟩
  obtain ⟨r, hstops, houtcome⟩ := hrefused hstatus
  rw [hprinted] at houtcome
  exact ⟨hfirst, hlines, hplain, hunread reserved rfl hfirstStops, hreserved reserved rfl (by decide +kernel), hstatus,
    r, hstops, houtcome⟩

end Command
end Reckoner
