import PrismSdk.Gnss.Monitor

/-! The commands of `rtk_module_control.cpp`: the account of the corrections service is
saved, and RTK is started and stopped. What a run asks of the device depends on its
arguments, on the environment and on the answers before. -/

namespace PrismSdk.Gnss.Control

open Library.Effects
open Library.Effects.Program (modify throw)
open Monitor (TimeSyncRtkStatus)

structure TimeSyncCorsConfiguration where
  enabled : Bool := false
  ip : Text := ascii "0.0.0.0"
  port : UInt16 := 0
  mountpoint : Text := []
  username : Text := []
  password : Text := []

/-- What the program reads of it. -/
structure TimeSyncCorsStatus where
  configurationSaved : Bool := false
  configurationApplied : Bool := false
  savedGeneration : UInt32 := 0
  ip : Text := []
  port : UInt16 := 0
  mountpoint : Text := []

structure RtkStartOptions where
  expectedCorsGeneration : UInt32 := 0
  allowGga : Bool := false
  timeoutMs : UInt32 := 20000

inductive Request where
  | enumerate
  | openFront
  | saveTimeSyncCorsConfiguration (config : TimeSyncCorsConfiguration)
  | timeSyncCorsConfiguration
  | startRtk (options : RtkStartOptions)
  | stopRtk
  | timeSyncRtkStatus

abbrev Answer : Request → Type
  | .enumerate => ℕ
  | .openFront => Unit
  | .saveTimeSyncCorsConfiguration _ | .timeSyncCorsConfiguration => TimeSyncCorsStatus
  | .startRtk _ | .stopRtk | .timeSyncRtkStatus => TimeSyncRtkStatus

/-- What is printed. -/
inductive Report where
  | saved (saved applied : Bool)
  | starting (ip : Text) (port : UInt16) (mountpoint : Text)
  | state (status : TimeSyncRtkStatus)

abbrev Action := Program Answer (List Report)

def ask (r : Request) : Action (Answer r) := Program.request r

def print (report : Report) : Action Unit := modify fun out => out ++ [report]

/-! ### Arguments -/

inductive Command where
  | status | save | start | stop
  deriving DecidableEq

def named (action : Text) : Option Command :=
  if action = ascii "status" then some .status
  else if action = ascii "save" then some .save
  else if action = ascii "start" then some .start
  else if action = ascii "stop" then some .stop
  else none

/-- What comes after the name of a command. -/
def Command.consent : Command → List Text
  | .start => [ascii "--allow-gga"]
  | _ => []

/-- What `main` makes of its arguments: `none` shows the usage. -/
def command : List Text → Except String (Option Command)
  | [] => .ok none
  | action :: rest =>
    if action = ascii "--help" then .ok none
    else match named action with
      | none => .error "invalid command; use --help (start requires --allow-gga)"
      | some c =>
        if rest ≠ c.consent then .error "invalid command; use --help (start requires --allow-gga)"
        else .ok (some c)

/-! ### The environment -/

/-- `isspace` in the C locale. -/
def isSpace (c : UInt8) : Bool := c = 32 || (9 ≤ c && c ≤ 13)

def isDigit (c : UInt8) : Bool := '0'.toUInt8 ≤ c && c ≤ '9'.toUInt8

/-- The value of digits in 64 bits, which a minus negates. -/
def valueOf (sign digits : Text) : ℕ :=
  if sign = ascii "-" then (2 ^ 64 - decimal digits) % 2 ^ 64 else decimal digits

/-- `std::stoul(text, &used)`: the number, and how much of the text was read. -/
def stoul (text : Text) : Except String (ℕ × ℕ) :=
  let spaces := text.takeWhile isSpace
  let number := text.dropWhile isSpace
  let sign := signOf number
  let digits := (number.drop sign.length).takeWhile isDigit
  if digits = [] ∨ decimal digits ≥ 2 ^ 64 then .error "stoul"
  else .ok (valueOf sign digits, spaces.length + sign.length + digits.length)

/-- The number that `stoul` reads when it reads the whole text. -/
structure Numeral (spaces sign digits : Text) : Prop where
  onlySpaces : ∀ c ∈ spaces, isSpace c = true
  isSign : sign = [] ∨ sign = ascii "+" ∨ sign = ascii "-"
  onlyDigits : ∀ c ∈ digits, isDigit c = true
  nonempty : digits ≠ []

theorem signOf_cases (text : Text) : ∃ rest, text = signOf text ++ rest ∧
    (signOf text = [] ∨ signOf text = ascii "+" ∨ signOf text = ascii "-") := by
  unfold signOf
  split_ifs with h
  · match text, h with
    | c :: rest, h =>
      refine ⟨rest, rfl, ?_⟩
      simp only [List.head?_cons, Option.some.injEq] at h
      rcases h with rfl | rfl
      · exact .inr (.inl rfl)
      · exact .inr (.inr rfl)
  · exact ⟨text, rfl, .inl rfl⟩

theorem signOf_append {sign digits : Text}
    (hsign : sign = [] ∨ sign = ascii "+" ∨ sign = ascii "-")
    (hdigits : ∀ c ∈ digits, isDigit c = true) : signOf (sign ++ digits) = sign := by
  rcases hsign with rfl | rfl | rfl
  · rw [List.nil_append, signOf, if_neg]
    · rfl
    · match digits, hdigits with
      | [], _ => simp
      | c :: _, hdigits =>
        have hc := hdigits c List.mem_cons_self
        simp only [List.head?_cons, Option.some.injEq, not_or]
        constructor <;> rintro rfl <;> revert hc <;> decide
  · rfl
  · rfl

theorem not_isSpace {sign digits : Text} (h : Numeral [] sign digits) :
    ∀ c ∈ (sign ++ digits).head?, isSpace c = false := by
  have hnot : ∀ c, isDigit c = true → isSpace c = false := by
    intro c hc
    simp only [isDigit, Bool.and_eq_true, decide_eq_true_eq, UInt8.le_iff_toNat_le] at hc
    have hlow : (48 : ℕ) ≤ c.toNat := hc.1
    simp only [isSpace, Bool.or_eq_false_iff, Bool.and_eq_false_iff, decide_eq_false_iff_not,
      UInt8.le_iff_toNat_le, ← UInt8.toNat_inj, UInt8.reduceToNat]
    omega
  intro c hc
  rcases h.isSign with hsign | hsign | hsign
  · rw [hsign] at hc
    exact hnot c (h.onlyDigits c (List.mem_of_mem_head? hc))
  · rw [hsign] at hc
    cases hc
    decide
  · rw [hsign] at hc
    cases hc
    decide

theorem takeWhile_of_head {α : Type} {p : α → Bool} {l : List α}
    (h : ∀ a ∈ l.head?, p a = false) : l.takeWhile p = [] ∧ l.dropWhile p = l := by
  cases l with
  | nil => exact ⟨rfl, rfl⟩
  | cons a l =>
    have ha := h a rfl
    simp [ha]

theorem stoul_iff (text : Text) (value : ℕ) : stoul text = .ok (value, text.length) ↔
    ∃ spaces sign digits, text = spaces ++ (sign ++ digits) ∧ Numeral spaces sign digits ∧
      decimal digits < 2 ^ 64 ∧ value = valueOf sign digits := by
  constructor
  · intro h
    have htext : text.takeWhile isSpace ++ text.dropWhile isSpace = text :=
      List.takeWhile_append_dropWhile
    obtain ⟨tail, htail, hcases⟩ := signOf_cases (text.dropWhile isSpace)
    have hdrop : (text.dropWhile isSpace).drop (signOf (text.dropWhile isSpace)).length = tail := by
      conv_lhs => arg 2; rw [htail]
      exact List.drop_left
    unfold stoul at h
    simp only [hdrop] at h
    split_ifs at h with hbad
    obtain ⟨hvalue, hused⟩ := Prod.mk.inj (Except.ok.inj h)
    simp only [not_or, Nat.not_le] at hbad
    have hlength := congrArg List.length htext
    rw [List.length_append, congrArg List.length htail, List.length_append] at hlength
    have hall : tail.takeWhile isDigit = tail :=
      (List.takeWhile_prefix isDigit).eq_of_length (by omega)
    rw [hall] at hbad hvalue
    refine ⟨text.takeWhile isSpace, _, tail, ?_,
      ⟨fun c => List.mem_takeWhile_imp, hcases, ?_, hbad.1⟩, hbad.2,
      hvalue.symm⟩
    · rw [← htail, htext]
    · rw [← hall]
      exact fun c => List.mem_takeWhile_imp
  · rintro ⟨spaces, sign, digits, rfl, h, hlt, rfl⟩
    obtain ⟨htake, hdrop⟩ :=
      takeWhile_of_head (not_isSpace ⟨by simp, h.isSign, h.onlyDigits, h.nonempty⟩)
    have hspaces : (spaces ++ (sign ++ digits)).takeWhile isSpace = spaces := by
      rw [List.takeWhile_append_of_pos h.onlySpaces, htake, List.append_nil]
    have hnumber : (spaces ++ (sign ++ digits)).dropWhile isSpace = sign ++ digits := by
      rw [List.dropWhile_append_of_pos h.onlySpaces, hdrop]
    have hdigits : digits.takeWhile isDigit = digits := List.takeWhile_eq_self_iff.2 h.onlyDigits
    unfold stoul
    simp only [hspaces, hnumber, signOf_append h.isSign h.onlyDigits, List.drop_left, hdigits]
    rw [if_neg (by simp only [not_or]; exact ⟨h.nonempty, Nat.not_le.2 hlt⟩)]
    simp [Nat.add_assoc]

def portOf (text : Text) : Except String UInt16 := do
  let (port, used) ← stoul text
  if used ≠ text.length ∨ port < 1 ∨ port > 65535 then .error "invalid port"
  else .ok (UInt16.ofNat port)

/-- The texts that are taken for a port. Blanks before the number, a sign and zeros do not
matter, and a number with a minus is taken from 2 ^ 64. -/
theorem port_exact (text : Text) (port : UInt16) : portOf text = .ok port ↔
    ∃ spaces sign digits, text = spaces ++ (sign ++ digits) ∧ Numeral spaces sign digits ∧
      0 < port.toNat ∧ if sign = ascii "-" then port.toNat + decimal digits = 2 ^ 64
        else port.toNat = decimal digits := by
  have hvalue : ∀ sign digits, decimal digits < 2 ^ 64 ∧ port.toNat = valueOf sign digits ∧
      0 < port.toNat ↔ 0 < port.toNat ∧ if sign = ascii "-" then
        port.toNat + decimal digits = 2 ^ 64 else port.toNat = decimal digits := by
    intro sign digits
    have hport := port.toNat_lt
    unfold valueOf
    split_ifs <;> omega
  have hport : portOf text = .ok port ↔ stoul text = .ok (port.toNat, text.length) ∧
      0 < port.toNat := by
    unfold portOf
    cases hnumber : stoul text with
    | error what => exact ⟨nofun, fun h => nomatch h.1⟩
    | ok number =>
      obtain ⟨value, used⟩ := number
      have hlt := port.toNat_lt
      show (if used ≠ text.length ∨ value < 1 ∨ value > 65535 then
        Except.error "invalid port" else Except.ok (UInt16.ofNat value)) = _ ↔ _
      split_ifs with hbad
      · refine ⟨nofun, ?_⟩
        rintro ⟨⟨⟩, hpos⟩
        omega
      · have hmod : (UInt16.ofNat value).toNat = value := by
          rw [UInt16.toNat_ofNat']
          omega
        simp only [Except.ok.injEq, Prod.mk.injEq, ← UInt16.toNat_inj, hmod]
        omega
  rw [hport, stoul_iff]
  constructor
  · rintro ⟨⟨spaces, sign, digits, htext, hnumeral, hrange⟩, hpos⟩
    exact ⟨spaces, sign, digits, htext, hnumeral, (hvalue sign digits).1 ⟨hrange.1, hrange.2, hpos⟩⟩
  · rintro ⟨spaces, sign, digits, htext, hnumeral, hrange⟩
    obtain ⟨hlt, heq, hpos⟩ := (hvalue sign digits).2 hrange
    exact ⟨⟨spaces, sign, digits, htext, hnumeral, hlt, heq⟩, hpos⟩

/-- `env(name)`. -/
def lookup (env : String → Option Text) (name : String) : Except String Text :=
  match env name with
  | none => .error ("missing " ++ name)
  | some value => if value = [] then .error ("missing " ++ name) else .ok value

def configuration (env : String → Option Text) : Except String TimeSyncCorsConfiguration := do
  let ip ← lookup env "PRISM_CORS_IP"
  let text ← lookup env "PRISM_CORS_PORT"
  let port ← portOf text
  let mountpoint ← lookup env "PRISM_CORS_MOUNTPOINT"
  let username ← lookup env "PRISM_CORS_USERNAME"
  let password ← lookup env "PRISM_CORS_PASSWORD"
  return { enabled := true, ip, port, mountpoint, username, password }

/-! ### The commands -/

variable (env : String → Option Text)

def performSave : Action Unit :=
  match configuration env with
  | .error what => throw what
  | .ok config => do
    let saved ← ask (.saveTimeSyncCorsConfiguration config)
    print (.saved saved.configurationSaved saved.configurationApplied)

def performStart : Action Unit := do
  let config ← ask .timeSyncCorsConfiguration
  print (.starting config.ip config.port config.mountpoint)
  let _ ← ask (.startRtk { expectedCorsGeneration := config.savedGeneration, allowGga := true })

def performStop : Action Unit := do
  let _ ← ask .stopRtk

def Command.perform : Command → Action Unit
  | .status => pure ()
  | .save => performSave env
  | .start => performStart
  | .stop => performStop

/-- What is done for a command, on the device found first. -/
def control (c : Command) : Action (Option ℕ) := do
  let devices ← ask .enumerate
  Program.throwIf (devices = 0) "no Prism device found"
  ask .openFront
  c.perform env
  let state ← ask .timeSyncRtkStatus
  print (.state state)
  pure (some 0)

def main (arguments : List Text) : Action (Option ℕ) :=
  Program.exitCode (match command arguments with
    | .error what => throw what
    | .ok none => pure (some 0)
    | .ok (some c) => control env c)

/-! ### What is done -/

/-- What is printed when an event has happened. Nothing of a request is. -/
def report : Event Answer → List Report
  | ⟨.saveTimeSyncCorsConfiguration _, .ok saved⟩ =>
    [.saved saved.configurationSaved saved.configurationApplied]
  | ⟨.timeSyncCorsConfiguration, .ok config⟩ => [.starting config.ip config.port config.mountpoint]
  | ⟨.timeSyncRtkStatus, .ok state⟩ => [.state state]
  | _ => []

/-- These events have happened, and what they report is printed. -/
structure Happened (events : List (Event Answer)) (c : Config Answer (List Report)) : Prop where
  trace : c.trace = events
  out : c.locals = events.flatMap report

variable {events : List (Event Answer)}

/-- A request about which nothing is printed. -/
theorem happened_ask {r : Request} (hr : ∀ a, report ⟨r, .ok a⟩ = []) :
    Triple (Happened events) (ask r) (fun a => Happened (events ++ [⟨r, .ok a⟩]))
      (fun what => Happened (events ++ [⟨r, .error what⟩])) := by
  have herror : ∀ what, report ⟨r, .error what⟩ = [] := by
    intro what
    cases r <;> rfl
  refine Triple.request ?_ ?_
  · rintro c a ⟨rfl, hout⟩
    exact ⟨rfl, by rw [Config.push_locals, hout]; simp [hr]⟩
  · rintro c what ⟨rfl, hout⟩
    exact ⟨rfl, by rw [Config.push_locals, hout]; simp [herror]⟩

/-- A request whose answer is printed. -/
theorem happened_print {r : Request} {f : Answer r → Report} (hr : ∀ a, report ⟨r, .ok a⟩ = [f a])
    {α : Type} {next : Answer r → Action α} {Q : α → Config Answer (List Report) → Prop}
    {E : String → Config Answer (List Report) → Prop}
    (hnext : ∀ a, Triple (Happened (events ++ [⟨r, .ok a⟩])) (next a) Q E)
    (herror : ∀ what c, Happened (events ++ [⟨r, .error what⟩]) c → E what c) :
    Triple (Happened events) (do
      let a ← ask r
      print (f a)
      next a) Q E := by
  have hfailed : ∀ what, report ⟨r, .error what⟩ = [] := by
    intro what
    cases r <;> rfl
  refine Triple.bind (Q := fun a c => c.trace = events ++ [⟨r, .ok a⟩] ∧
    c.locals = events.flatMap report) (Triple.request ?_ ?_) fun a =>
      Triple.bind (Triple.modify ?_) fun _ => hnext a
  · rintro c a ⟨rfl, hout⟩
    exact ⟨rfl, hout⟩
  · rintro c what ⟨rfl, hout⟩
    exact herror what _ ⟨rfl, by rw [Config.push_locals, hout]; simp [hfailed]⟩
  · rintro c ⟨htrace, hout⟩
    exact ⟨htrace, by simp [hout, hr]⟩

/-- How every command begins. -/
def opening : List Request := [.enumerate, .openFront]

/-- What a command asks for itself, when the device has the account `config`. -/
def wanted (config : TimeSyncCorsStatus) : Command → Except String (List Request)
  | .status => .ok []
  | .save => (configuration env).map fun account => [.saveTimeSyncCorsConfiguration account]
  | .start => .ok [.timeSyncCorsConfiguration,
      .startRtk { expectedCorsGeneration := config.savedGeneration, allowGga := true }]
  | .stop => .ok [.stopRtk]

/-- How a command goes on. -/
def rest (config : TimeSyncCorsStatus) (c : Command) : List Request :=
  match wanted env config c with
  | .ok requests => requests ++ [.timeSyncRtkStatus]
  | .error _ => []

/-- The runs of a command, with the code they end with. -/
inductive Ran (c : Command) (config : TimeSyncCorsStatus) : ℕ → List (Event Answer) → Prop where
  | completed {events : List (Event Answer)} (requests : List Request)
    (isWanted : wanted env config c = .ok requests)
    (carried : Carried (opening ++ rest env config c) (.ok () : Except String Unit) events) :
    Ran c config 0 events
  | failed {events : List (Event Answer)} (what : String)
    (carried : Carried (opening ++ rest env config c) (.error what : Except String Unit) events) :
    Ran c config 1 events
  /-- The environment has no account. -/
  | unset {events : List (Event Answer)} (what : String)
    (unwanted : wanted env config c = .error what)
    (carried : Carried opening (.ok () : Except String Unit) events) : Ran c config 1 events
  | absent : Ran c config 1 [⟨.enumerate, .ok 0⟩]

/-- The account that the device has is the one it answered with. -/
def Answered (config : TimeSyncCorsStatus) (events : List (Event Answer)) : Prop :=
  ∀ answer, ⟨.timeSyncCorsConfiguration, .ok answer⟩ ∈ events → answer = config

/-- A run with a code, and what it printed. -/
def Leaves (c : Command) (code : ℕ) (cfg : Config Answer (List Report)) : Prop :=
  ∃ config events, Happened events cfg ∧ Ran env c config code events ∧ Answered config events

/-- The device is open. -/
def opened (n : ℕ) : List (Event Answer) := [⟨.enumerate, .ok n⟩, ⟨.openFront, .ok ()⟩]

theorem carried_opened (n : ℕ) : Carried opening (.ok () : Except String Unit) (opened n) :=
  .whole () rfl (by simp [opened])

/-- What a command does itself, up to its end or to an exception. -/
def Performed (c : Command) (n : ℕ) (result : Except String Unit)
    (cfg : Config Answer (List Report)) : Prop :=
  ∃ config requests events, Happened (opened n ++ events) cfg ∧
    wanted env config c = .ok requests ∧ Carried requests result events ∧ Answered config events

variable {env}

theorem performed_perform (c : Command) (n : ℕ) : Triple (Happened (opened n)) (c.perform env)
    (fun _ => Performed env c n (.ok ()))
    (fun what cfg => Performed env c n (.error what) cfg ∨
      Happened (opened n) cfg ∧ ∃ what, wanted env {} c = .error what) := by
  cases c with
  | status =>
    exact Triple.pure fun cfg h =>
      ⟨{}, [], [], by rwa [List.append_nil], rfl, .whole () rfl (by simp), by simp [Answered]⟩
  | save =>
    rw [Command.perform, performSave]
    cases haccount : configuration env with
    | error what =>
      have hwanted : wanted env {} .save = .error what := by
        rw [wanted, haccount]
        rfl
      exact Triple.throw fun cfg h => .inr ⟨h, what, hwanted⟩
    | ok account =>
      have hwanted : wanted env {} .save = .ok [.saveTimeSyncCorsConfiguration account] := by
        rw [wanted, haccount]
        rfl
      refine happened_print (fun _ => rfl) (fun saved => Triple.pure fun cfg h => ?_)
        fun what cfg h => ?_
      · exact ⟨{}, _, _, h, hwanted, .whole () rfl (by simp), by simp [Answered]⟩
      · exact .inl ⟨{}, _, _, h, hwanted, .at_once _ _ what, by simp [Answered]⟩
  | start =>
    refine happened_print (fun _ => rfl) (fun config => ?_) fun what cfg h => ?_
    · refine Triple.bind ((happened_ask fun _ => rfl).conseq (fun _ => id) (fun _ _ => id)
        fun what cfg h => ?_) fun state => Triple.pure fun cfg h => ?_
      · rw [List.append_assoc] at h
        exact .inl ⟨config, _, _, h, rfl, .cut what [] rfl (by simp), by simp [Answered]⟩
      · rw [List.append_assoc] at h
        exact ⟨config, _, _, h, rfl, .whole () rfl (by simp), by simp [Answered]⟩
    · exact .inl ⟨{}, _, _, h, rfl, .at_once _ _ what, by simp [Answered]⟩
  | stop =>
    refine Triple.bind ((happened_ask fun _ => rfl).conseq (fun _ => id) (fun _ _ => id)
      fun what cfg h => ?_) fun state => Triple.pure fun cfg h => ?_
    · exact .inl ⟨{}, _, _, h, rfl, .at_once _ _ what, by simp [Answered]⟩
    · exact ⟨{}, _, _, h, rfl, .whole () rfl (by simp), by simp [Answered]⟩

theorem Answered.append {config : TimeSyncCorsStatus} {events events' : List (Event Answer)}
    (h : Answered config events) (h' : Answered config events') :
    Answered config (events ++ events') := fun answer hanswer =>
  (List.mem_append.1 hanswer).elim (h answer) (h' answer)

theorem answered_opened (config : TimeSyncCorsStatus) (n : ℕ) : Answered config (opened n) := by
  simp [Answered, opened]

theorem leaves_of_performed {c : Command} {n : ℕ} {what : String}
    {cfg : Config Answer (List Report)} (h : Performed env c n (.error what) cfg) :
    Leaves env c 1 cfg := by
  obtain ⟨config, requests, events, hhappened, hwanted, hcarried, hanswered⟩ := h
  refine ⟨config, _, hhappened, .failed what ?_, (answered_opened config n).append hanswered⟩
  refine (carried_opened n).append ?_
  rw [rest, hwanted]
  exact hcarried.of_error

theorem leaves_control (c : Command) : Triple (Happened []) (control env c)
    (fun code cfg => code = some 0 ∧ Leaves env c 0 cfg) (fun _ => Leaves env c 1) := by
  refine Triple.bind ((happened_ask fun _ => rfl).conseq (fun _ => id) (fun _ _ => id)
    fun what cfg h => ?_) fun n => ?_
  · exact ⟨{}, _, h, .failed what (.at_once _ _ what), by simp [Answered]⟩
  refine Triple.bind (Q := fun _ => Happened [⟨.enumerate, .ok n⟩])
    (Triple.throwIf (fun _ cfg => id) fun hzero cfg h => ?_) fun _ => ?_
  · subst hzero
    exact ⟨{}, _, h, .absent, by simp [Answered]⟩
  refine Triple.bind ((happened_ask fun _ => rfl).conseq (fun _ => id) (fun _ _ => id)
    fun what cfg h => ?_) fun _ => ?_
  · have hfirst : Carried [Request.enumerate] (.ok () : Except String Unit) [⟨.enumerate, .ok n⟩] :=
      .whole () rfl (by simp)
    exact ⟨{}, _, h, .failed what (hfirst.append (.at_once _ _ what)), by simp [Answered]⟩
  refine Triple.bind ((performed_perform c n).conseq (fun _ => id) (fun _ _ => id) ?_) fun _ => ?_
  · rintro what cfg (h | ⟨h, what', hwanted⟩)
    · exact leaves_of_performed h
    · exact ⟨{}, _, h, .unset what' hwanted (carried_opened n), answered_opened {} n⟩
  · rintro w cfg ⟨config, requests, events, hhappened, hwanted, hcarried, hanswered⟩
    have hrest : rest env config c = requests ++ [.timeSyncRtkStatus] := by rw [rest, hwanted]
    refine (happened_print (fun _ => rfl) (fun state => Triple.pure fun cfg h => ?_)
      fun what cfg h => ?_) w cfg hhappened
    · refine ⟨rfl, config, _, h, .completed requests hwanted ?_, ?_⟩
      · rw [hrest, List.append_assoc]
        exact (carried_opened n).append (hcarried.append (.whole () rfl (by simp)))
      · exact ((answered_opened config n).append hanswered).append (by simp [Answered])
    · refine ⟨config, _, h, .failed what ?_, ?_⟩
      · rw [hrest, List.append_assoc]
        exact (carried_opened n).append (hcarried.append (.at_once _ _ what))
      · exact ((answered_opened config n).append hanswered).append (by simp [Answered])

theorem leaves_main (env : String → Option Text) (arguments : List Text) (w : World Answer) :
    ∃ code c, main env arguments w { locals := [] } = (.ok (some code), c) ∧
      match command arguments with
      | .error _ => code = 1 ∧ Happened [] c
      | .ok none => code = 0 ∧ Happened [] c
      | .ok (some command) => Leaves env command code c := by
  have hnothing : Happened [] { locals := [] } := ⟨rfl, rfl⟩
  unfold main
  cases command arguments with
  | error what => exact ⟨1, { locals := [] }, rfl, rfl, hnothing⟩
  | ok parsed =>
    cases parsed with
    | none => exact ⟨0, { locals := [] }, rfl, rfl, hnothing⟩
    | some command =>
      obtain ⟨result, c, hrun, ⟨rfl, h⟩ | ⟨rfl, h⟩⟩ :=
        (leaves_control command).exitCode w hnothing
      · exact ⟨0, c, hrun, h⟩
      · exact ⟨1, c, hrun, h⟩

theorem named_start {action : Text} (h : named action = some .start) : action = ascii "start" := by
  unfold named at h
  split_ifs at h with hstatus hsave hstart hstop
  · cases h
  · cases h
  · exact hstart
  · cases h

theorem command_start {arguments : List Text} (h : command arguments = .ok (some .start)) :
    arguments = [ascii "start", ascii "--allow-gga"] := by
  match arguments with
  | [] => cases h
  | action :: rest =>
    rw [command] at h
    split_ifs at h with hhelp
    · cases h
    cases hnamed : named action with
    | none =>
      rw [hnamed] at h
      cases h
    | some c =>
      rw [hnamed] at h
      dsimp only at h
      split_ifs at h with hrest
      cases h
      rw [named_start hnamed, not_not.1 hrest]
      rfl

theorem Ran.isPrefix {c : Command} {config : TimeSyncCorsStatus} {code : ℕ}
    {events : List (Event Answer)} (h : Ran env c config code events) :
    events.map (·.request) <+: opening ++ rest env config c ∧ ∀ e ∈ events.dropLast, e.succeeds := by
  cases h with
  | completed _ _ hcarried => exact ⟨hcarried.isPrefix, hcarried.succeeds⟩
  | failed _ hcarried => exact ⟨hcarried.isPrefix, hcarried.succeeds⟩
  | unset _ _ hcarried =>
    exact ⟨hcarried.isPrefix.trans (List.prefix_append _ _), hcarried.succeeds⟩
  | absent => exact ⟨⟨.openFront :: rest env config c, rfl⟩, by simp⟩

/-- RTK is started for one command, with the generation of the account that the device has. -/
theorem Ran.start {c : Command} {config : TimeSyncCorsStatus} {code : ℕ}
    {events : List (Event Answer)} (h : Ran env c config code events)
    (hanswered : Answered config events) {options : RtkStartOptions}
    (hstart : .startRtk options ∈ events.map (·.request)) :
    c = .start ∧ ⟨.timeSyncCorsConfiguration, .ok config⟩ ∈ events ∧
      options = { expectedCorsGeneration := config.savedGeneration, allowGga := true } := by
  obtain ⟨hinitial, hsucceeds⟩ := h.isPrefix
  have hmem := hinitial.subset hstart
  have hc : c = .start := by
    cases c with
    | start => rfl
    | status => simp [opening, rest, wanted] at hmem
    | stop => simp [opening, rest, wanted] at hmem
    | save => cases hconfiguration : configuration env <;>
        simp [opening, rest, wanted, hconfiguration, Except.map] at hmem
  subst hc
  refine ⟨rfl, ?_, by simpa [opening, rest, wanted] using hmem⟩
  simp only [opening, rest, wanted, List.cons_append, List.nil_append] at hinitial
  match events, hinitial with
  | [], _ => cases hstart
  | [_], hinitial => simp_all [List.cons_prefix_cons]
  | [_, _], hinitial => simp_all [List.cons_prefix_cons]
  | [_, _, _], hinitial => simp_all [List.cons_prefix_cons]
  | _ :: _ :: ⟨r, outcome⟩ :: _ :: _, hinitial =>
    simp only [List.map_cons, List.cons_prefix_cons] at hinitial
    obtain ⟨-, -, rfl, -⟩ := hinitial
    cases outcome with
    | error what =>
      have := hsucceeds ⟨.timeSyncCorsConfiguration, .error what⟩ (by simp)
      cases this
    | ok answer =>
      rw [hanswered answer (by simp)]
      simp

/-- A run of the program, from its arguments, the environment and the answers of the device.
It prints what the answers say and nothing of what it sends. Without a command it asks for
nothing; with one, it makes the requests of that command one after the other, and its code
is 0 when the last of them is answered and 1 when one is not, when there is no device, or
when the environment has no account to be saved. RTK is started only with the consent on
the command line, and for the account that the device has just shown. -/
theorem control_exact (env : String → Option Text) (arguments : List Text) (w : World Answer) :
    ∃ code c, main env arguments w { locals := [] } = (.ok (some code), c) ∧
      c.locals = c.trace.flatMap report ∧
      (match command arguments with
        | .error _ => code = 1 ∧ c.trace = []
        | .ok none => code = 0 ∧ c.trace = []
        | .ok (some command) => ∃ config, Ran env command config code c.trace ∧
          Answered config c.trace) ∧
      ∀ options, .startRtk options ∈ c.trace.map (·.request) →
        arguments = [ascii "start", ascii "--allow-gga"] ∧
          ∃ config, ⟨.timeSyncCorsConfiguration, .ok config⟩ ∈ c.trace ∧
            options = { expectedCorsGeneration := config.savedGeneration, allowGga := true } := by
  obtain ⟨code, c, hrun, h⟩ := leaves_main env arguments w
  refine ⟨code, c, hrun, ?_⟩
  cases hcommand : command arguments with
  | error what =>
    rw [hcommand] at h
    obtain ⟨hcode, htrace, hout⟩ := h
    simp [htrace, hout, hcode]
  | ok parsed =>
    cases parsed with
    | none =>
      rw [hcommand] at h
      obtain ⟨hcode, htrace, hout⟩ := h
      simp [htrace, hout, hcode]
    | some command =>
      rw [hcommand] at h
      obtain ⟨config, events, ⟨rfl, hout⟩, hran, hanswered⟩ := h
      refine ⟨hout, ⟨config, hran, hanswered⟩, fun options hstart => ?_⟩
      obtain ⟨rfl, hshown, hoptions⟩ := hran.start hanswered hstart
      exact ⟨command_start hcommand, config, hshown, hoptions⟩

end PrismSdk.Gnss.Control
