import Mathlib.Data.List.ReduceOption
import MachAudio.Discovery
import MachAudio.Lib.Overwriting

/-! # The command lines

Both programs read their options from left to right (`parse_args` of the client, `main` of the
server), so of each option the last one counts, and the order of different options does not matter.
The client accepts a configuration with one transport and an input file, and reads it from every
command line that gives it (`arguments_parsed`).  The server takes what an option does not say from
the environment, and the rest from its defaults (`settings_read`). -/

namespace MachAudio

open CString Overwriting

/-! ### Numbers -/

/-- `(uint8_t)atoi(s)` -/
def readUInt8 (s : List Char) : UInt8 := UInt8.ofInt (atoi s)

/-- `(uint32_t)atoi(s)` -/
def readUInt32 (s : List Char) : UInt32 := UInt32.ofInt (atoi s)

theorem readUInt8_toDigits (n : UInt8) : readUInt8 (Nat.toDigits 10 n.toNat) = n := by
  have hlt := n.toNat_lt
  unfold readUInt8
  rw [atoi_toDigits (by omega)]
  unfold UInt8.ofInt
  have hmod : ((n.toNat : ℤ) % 2 ^ 8).toNat = n.toNat := by omega
  rw [hmod, UInt8.ofNat_toNat]

/-- Also where `atoi` comes out negative. -/
theorem readUInt32_toDigits (n : UInt32) : readUInt32 (Nat.toDigits 10 n.toNat) = n := by
  have hlt := n.toNat_lt
  unfold readUInt32 atoi
  rw [strtol_toDigits (by omega)]
  unfold UInt32.ofInt
  have hmod : ((n.toNat : ℤ).bmod (2 ^ 32) % 2 ^ 32).toNat = n.toNat := by
    have h := Int.bmod_emod (x := n.toNat) (m := 2 ^ 32)
    omega
  rw [hmod, UInt32.ofNat_toNat]

/-! ### The options of the client -/

/-- What `getopt_long` gives, with `optarg`. -/
inductive ClientOption
  | udsDir (optarg : List Char)
  | udsName (optarg : List Char)
  | host (optarg : List Char)
  | port (optarg : List Char)
  | input (optarg : List Char)
  | input2 (optarg : List Char)
  | writeOutput
  | format (optarg : List Char)
  | rate (optarg : List Char)
  | channels (optarg : List Char)
  | inEndian (optarg : List Char)
  | outFormat (optarg : List Char)
  | outRate (optarg : List Char)
  | outChannels (optarg : List Char)
  | outEndian (optarg : List Char)
  | concurrent (optarg : List Char)
  | ptime (optarg : List Char)
  | loop
  | duration (optarg : List Char)
  | vad
  | rampUp (optarg : List Char)
  | help
  | unknown
deriving DecidableEq, Repr

/-- The character of an option. -/
def ClientOption.opt : ClientOption → Char
  | udsDir _ => 'D'
  | udsName _ => 'S'
  | host _ => 'H'
  | port _ => 'P'
  | input _ => 'i'
  | input2 _ => 'j'
  | writeOutput => 'w'
  | format _ => 'f'
  | rate _ => 'r'
  | channels _ => 'c'
  | inEndian _ => 'e'
  | outFormat _ => 'F'
  | outRate _ => 'R'
  | outChannels _ => 'C'
  | outEndian _ => 'E'
  | concurrent _ => 'n'
  | ptime _ => 'p'
  | loop => 'l'
  | duration _ => 'd'
  | vad => 'V'
  | rampUp _ => 'U'
  | help => 'h'
  | unknown => '?'

/-- The argument of an option that has one. -/
def ClientOption.optarg : ClientOption → List Char
  | udsDir s | udsName s | host s | port s | input s | input2 s | format s | rate s | channels s
  | inEndian s | outFormat s | outRate s | outChannels s | outEndian s | concurrent s | ptime s
  | duration s | rampUp s => s
  | writeOutput | loop | vad | help | unknown => []

/-- All the members of `ClientConfig`. -/
structure ClientArgs extends ClientConfig where
  udsDir : Option (List Char)
  udsName : Option (List Char)
  host : Option (List Char)
  port : ℤ
  inputFile : Option (List Char)
  inputFile2 : Option (List Char)
  writeOutput : Bool
  concurrent : UInt32
  durationSec : UInt32
  rampUpSec : UInt32

/-- What `parse_args` starts with; the configuration is in static memory. -/
def defaultArgs : ClientArgs where
  rate := 8000
  channels := 1
  format := 0
  inEndian := 1
  outRate := 16000
  outChannels := 1
  outFormat := 96
  outEndian := 1
  ptime := 20
  loop := false
  vadEnabled := false
  udsDir := none
  udsName := none
  host := none
  port := 0
  inputFile := none
  inputFile2 := none
  writeOutput := false
  concurrent := 1
  durationSec := 0
  rampUpSec := 0

/-- One turn of the loop; the last two options end the program. -/
def ClientArgs.set (c : ClientArgs) : ClientOption → ClientArgs
  | .udsDir s => { c with udsDir := some s }
  | .udsName s => { c with udsName := some s }
  | .host s => { c with host := some s }
  | .port s => { c with port := atoi s }
  | .input s => { c with inputFile := some s }
  | .input2 s => { c with inputFile2 := some s }
  | .writeOutput => { c with writeOutput := true }
  | .format s => { c with format := readUInt8 s }
  | .rate s => { c with rate := readUInt32 s }
  | .channels s => { c with channels := readUInt8 s }
  | .inEndian s => { c with inEndian := readUInt8 s }
  | .outFormat s => { c with outFormat := readUInt8 s }
  | .outRate s => { c with outRate := readUInt32 s }
  | .outChannels s => { c with outChannels := readUInt8 s }
  | .outEndian s => { c with outEndian := readUInt8 s }
  | .concurrent s => { c with concurrent := readUInt32 s }
  | .ptime s => { c with ptime := readUInt32 s }
  | .loop => { c with loop := true }
  | .duration s => { c with durationSec := readUInt32 s }
  | .vad => { c with vadEnabled := true }
  | .rampUp s => { c with rampUpSec := readUInt32 s }
  | .help => c
  | .unknown => c

/-- The code the program exits with at an option. -/
def ClientOption.exits : ClientOption → Option ℤ
  | help => some 0
  | unknown => some 1
  | _ => none

/-- The loop of `parse_args`. -/
def parseOptions : ClientArgs → List ClientOption → Except ℤ ClientArgs
  | c, [] => .ok c
  | c, o :: os => o.exits.elim (parseOptions (c.set o) os) .error

/-- The directory and the name of the sockets where none is given. -/
def ClientArgs.fill (c : ClientArgs) : ClientArgs :=
  { c with
    udsDir := if c.udsDir = none ∧ c.host = none then some defaultUdsDir else c.udsDir
    udsName := some (c.udsName.getD defaultUdsName) }

/-- The checks at the end of `parse_args`. -/
def ClientArgs.isRefused (c : ClientArgs) : Bool :=
  (c.udsDir.isSome && (c.host.isSome || decide (c.port ≠ 0))) ||
    (c.host.isSome && decide (c.port = 0)) ||
    (c.host.isSome && (decide (c.port < 1024) || decide (c.port > 65535))) ||
    c.inputFile.isNone

/-- `parse_args`: the configuration, or the code the program exits with. -/
def parseArgs (argv : List ClientOption) : Except ℤ ClientArgs :=
  match parseOptions defaultArgs argv with
  | .error code => .error code
  | .ok c => if c.fill.isRefused then .error 1 else .ok c.fill

/-- One transport, and a file to send. -/
structure ClientArgs.WellFormed (c : ClientArgs) : Prop where
  transport : (c.udsDir ≠ none ∧ c.host = none ∧ c.port = 0) ∨
    (c.udsDir = none ∧ c.host ≠ none ∧ 1024 ≤ c.port ∧ c.port ≤ 65535)
  udsName : c.udsName ≠ none
  inputFile : c.inputFile ≠ none

/-- The options with a string, where there is one. -/
def ClientArgs.printStrings (c : ClientArgs) : List ClientOption :=
  [c.udsDir.map ClientOption.udsDir, c.udsName.map ClientOption.udsName,
    c.host.map ClientOption.host, c.inputFile.map ClientOption.input,
    c.inputFile2.map ClientOption.input2].reduceOption

/-- The options that are set. -/
def ClientArgs.printFlags (c : ClientArgs) : List ClientOption :=
  [if c.writeOutput then some ClientOption.writeOutput else none,
    if c.loop then some ClientOption.loop else none,
    if c.vadEnabled then some ClientOption.vad else none].reduceOption

/-- The options with a number. -/
def ClientArgs.printNumbers (c : ClientArgs) : List ClientOption :=
  [ClientOption.port (Nat.toDigits 10 c.port.toNat),
    ClientOption.format (Nat.toDigits 10 c.format.toNat),
    ClientOption.rate (Nat.toDigits 10 c.rate.toNat),
    ClientOption.channels (Nat.toDigits 10 c.channels.toNat),
    ClientOption.inEndian (Nat.toDigits 10 c.inEndian.toNat),
    ClientOption.outFormat (Nat.toDigits 10 c.outFormat.toNat),
    ClientOption.outRate (Nat.toDigits 10 c.outRate.toNat),
    ClientOption.outChannels (Nat.toDigits 10 c.outChannels.toNat),
    ClientOption.outEndian (Nat.toDigits 10 c.outEndian.toNat),
    ClientOption.concurrent (Nat.toDigits 10 c.concurrent.toNat),
    ClientOption.ptime (Nat.toDigits 10 c.ptime.toNat),
    ClientOption.duration (Nat.toDigits 10 c.durationSec.toNat),
    ClientOption.rampUp (Nat.toDigits 10 c.rampUpSec.toNat)]

/-- A command line for a configuration. -/
def ClientArgs.print (c : ClientArgs) : List ClientOption :=
  c.printStrings ++ c.printFlags ++ c.printNumbers

/-! ### The last option counts -/

/-- An option overwrites the one with its character, and does not meet the others. -/
theorem ClientArgs.set_overwrites : Overwrites ClientOption.opt ClientArgs.set := by
  constructor
  · intro c x y h
    cases x <;> cases y <;> first | (simp only [ClientOption.opt, Char.reduceEq] at h; done) | rfl
  · intro c x y h
    cases x <;> cases y <;> first | rfl | exact absurd rfl h

/-- Without an option that ends the program, the loop applies all of them. -/
theorem parseOptions_ok {argv : List ClientOption} (h : ∀ o ∈ argv, o.exits = none)
    (c : ClientArgs) : parseOptions c argv = .ok (argv.foldl ClientArgs.set c) := by
  induction argv generalizing c with
  | nil => rfl
  | cons o os ih =>
      unfold parseOptions
      rw [h o List.mem_cons_self]
      exact ih (fun o' ho' => h o' (List.mem_cons_of_mem _ ho')) (c.set o)

/-- The first option that ends the program does. -/
theorem parseOptions_exits {argv post : List ClientOption} {o : ClientOption} {code : ℤ}
    (h : ∀ o ∈ argv, o.exits = none) (ho : o.exits = some code) (c : ClientArgs) :
    parseOptions c (argv ++ o :: post) = .error code := by
  induction argv generalizing c with
  | nil =>
      rw [List.nil_append]
      unfold parseOptions
      rw [ho]
      rfl
  | cons o' os ih =>
      rw [List.cons_append]
      unfold parseOptions
      rw [h o' List.mem_cons_self]
      exact ih (fun o hmem => h o (List.mem_cons_of_mem _ hmem)) (c.set o')

/-- Every command line is of one of these two kinds. -/
theorem exits_cases (argv : List ClientOption) :
    (∀ o ∈ argv, o.exits = none) ∨ ∃ pre o post code, argv = pre ++ o :: post ∧
      (∀ o ∈ pre, o.exits = none) ∧ o.exits = some code := by
  induction argv with
  | nil => exact .inl fun _ h => absurd h List.not_mem_nil
  | cons o os ih =>
      cases ho : o.exits with
      | some code =>
          exact .inr ⟨[], o, os, code, rfl, fun _ h => absurd h List.not_mem_nil, ho⟩
      | none =>
          have hcons : ∀ l : List ClientOption, (∀ o' ∈ l, o'.exits = none) →
              ∀ o' ∈ o :: l, o'.exits = none := by
            intro l hl o' ho'
            rcases List.mem_cons.mp ho' with rfl | ho'
            · exact ho
            · exact hl o' ho'
          rcases ih with hall | ⟨pre, o', post, code, rfl, hpre, ho'⟩
          · exact .inl (hcons os hall)
          · exact .inr ⟨o :: pre, o', post, code, rfl, hcons pre hpre, ho'⟩

/-! ### What is printed is read -/

theorem foldl_printStrings (c : ClientArgs) :
    c.printStrings.foldl ClientArgs.set defaultArgs =
      { defaultArgs with
        udsDir := c.udsDir
        udsName := c.udsName
        host := c.host
        inputFile := c.inputFile
        inputFile2 := c.inputFile2 } := by
  unfold ClientArgs.printStrings
  cases c.udsDir <;> cases c.udsName <;> cases c.host <;> cases c.inputFile <;>
    cases c.inputFile2 <;> rfl

theorem foldl_printFlags (c d : ClientArgs) :
    c.printFlags.foldl ClientArgs.set d =
      { d with
        writeOutput := c.writeOutput || d.writeOutput
        loop := c.loop || d.loop
        vadEnabled := c.vadEnabled || d.vadEnabled } := by
  unfold ClientArgs.printFlags
  cases c.writeOutput <;> cases c.loop <;> cases c.vadEnabled <;> rfl

/-- The options of a configuration give it back. -/
theorem foldl_print {c : ClientArgs} (h : 0 ≤ c.port ∧ c.port < 2 ^ 31) :
    c.print.foldl ClientArgs.set defaultArgs = c := by
  have hport : atoi (Nat.toDigits 10 c.port.toNat) = c.port := by
    rw [atoi_toDigits (by omega), Int.toNat_of_nonneg h.1]
  unfold ClientArgs.print
  rw [List.foldl_append, List.foldl_append, foldl_printStrings, foldl_printFlags]
  unfold ClientArgs.printNumbers
  simp only [List.foldl_cons, List.foldl_nil, ClientArgs.set, hport, readUInt8_toDigits,
    readUInt32_toDigits, defaultArgs, Bool.or_false]

theorem print_exits (c : ClientArgs) : ∀ o ∈ c.print, o.exits = none := by
  intro o ho
  unfold ClientArgs.print at ho
  rcases List.mem_append.mp ho with ho | ho
  · rcases List.mem_append.mp ho with ho | ho
    · unfold ClientArgs.printStrings at ho
      simp only [List.reduceOption_mem_iff, List.mem_cons, List.not_mem_nil, or_false,
        eq_comm (a := some o), Option.map_eq_some_iff] at ho
      rcases ho with ⟨_, _, rfl⟩ | ⟨_, _, rfl⟩ | ⟨_, _, rfl⟩ | ⟨_, _, rfl⟩ | ⟨_, _, rfl⟩ <;> rfl
    · unfold ClientArgs.printFlags at ho
      simp only [List.reduceOption_mem_iff, List.mem_cons, List.not_mem_nil, or_false,
        eq_comm (a := some o), Option.ite_none_right_eq_some, Option.some.injEq] at ho
      rcases ho with ⟨_, rfl⟩ | ⟨_, rfl⟩ | ⟨_, rfl⟩ <;> rfl
  · unfold ClientArgs.printNumbers at ho
    simp only [List.mem_cons, List.not_mem_nil, or_false] at ho
    rcases ho with rfl | rfl | rfl | rfl | rfl | rfl | rfl | rfl | rfl | rfl | rfl | rfl | rfl <;>
      rfl

/-- An option that ends the program is one of two kinds. -/
theorem exits_iff (o : ClientOption) : o.exits = none ↔ o.opt ≠ 'h' ∧ o.opt ≠ '?' := by
  cases o <;> simp [ClientOption.exits, ClientOption.opt]

theorem exits_code {o : ClientOption} {code : ℤ} (h : o.exits = some code) :
    (o = .help ∧ code = 0) ∨ (o = .unknown ∧ code = 1) := by
  cases o <;> simp_all [ClientOption.exits]

/-- The options that end the program are not overwritten. -/
theorem exits_of_last {argv os : List ClientOption}
    (h : ∀ k, last ClientOption.opt k argv = last ClientOption.opt k os)
    (hos : ∀ o ∈ os, o.exits = none) : ∀ o ∈ argv, o.exits = none := by
  have hnone : ∀ k, (∀ o ∈ os, o.opt ≠ k) → ∀ o ∈ argv, o.opt ≠ k := fun k hk =>
    last_eq_none.mp ((h k).trans (last_eq_none.mpr hk))
  intro o ho
  rw [exits_iff]
  exact ⟨hnone 'h' (fun o' ho' => ((exits_iff o').mp (hos o' ho')).1) o ho,
    hnone '?' (fun o' ho' => ((exits_iff o').mp (hos o' ho')).2) o ho⟩

/-! ### What is accepted -/

/-- The checks let pass what is well formed. -/
theorem ClientArgs.fill_accepted {c : ClientArgs} :
    c.fill.isRefused = false ↔ c.inputFile ≠ none ∧
      ((c.host = none ∧ c.port = 0) ∨
        (c.udsDir = none ∧ c.host ≠ none ∧ 1024 ≤ c.port ∧ c.port ≤ 65535)) := by
  unfold ClientArgs.fill ClientArgs.isRefused
  dsimp only
  cases hhost : c.host with
  | none =>
      cases hdir : c.udsDir with
      | none => cases hinput : c.inputFile <;> simp
      | some dir => cases hinput : c.inputFile <;> simp
  | some host =>
      cases hdir : c.udsDir with
      | none =>
          cases hinput : c.inputFile with
          | none => simp
          | some input =>
              simp
              omega
      | some dir => cases hinput : c.inputFile <;> simp

theorem ClientArgs.fill_wellFormed {c : ClientArgs} (h : c.fill.isRefused = false) :
    c.fill.WellFormed := by
  obtain ⟨hinput, ⟨hhost, hport⟩ | ⟨hdir, hhost, hport⟩⟩ := fill_accepted.mp h
  · refine ⟨.inl ⟨?_, hhost, hport⟩, Option.some_ne_none _, hinput⟩
    unfold ClientArgs.fill
    cases hdir : c.udsDir <;> simp [hhost]
  · refine ⟨.inr ⟨?_, hhost, hport⟩, Option.some_ne_none _, hinput⟩
    unfold ClientArgs.fill
    simp [hdir, hhost]

/-- What is well formed needs no defaults and passes the checks. -/
theorem ClientArgs.WellFormed.filled {c : ClientArgs} (h : c.WellFormed) :
    c.fill = c ∧ c.isRefused = false := by
  obtain ⟨htransport, hname, hinput⟩ := h
  have hfill : c.fill = c := by
    have hdir : ¬(c.udsDir = none ∧ c.host = none) := by
      rintro ⟨hdir, hhost⟩
      rcases htransport with ht | ht
      · exact ht.1 hdir
      · exact ht.2.1 hhost
    obtain ⟨name, hname⟩ := Option.ne_none_iff_exists'.mp hname
    unfold ClientArgs.fill
    rw [if_neg hdir, hname, Option.getD_some, ← hname]
  refine ⟨hfill, ?_⟩
  rw [← hfill, ClientArgs.fill_accepted]
  refine ⟨hinput, htransport.imp (fun ht => ht.2) id⟩

/-- The last argument of an option. -/
def given (k : Char) (argv : List ClientOption) : Option (List Char) :=
  (last ClientOption.opt k argv).map ClientOption.optarg

/-- The options that the checks look at, each by its last argument. -/
structure Accepts (argv : List ClientOption) : Prop where
  exits : ∀ o ∈ argv, o.exits = none
  input : given 'i' argv ≠ none
  transport :
    (given 'H' argv = none ∧ ((given 'P' argv).map atoi).getD 0 = 0) ∨
      (given 'D' argv = none ∧ given 'H' argv ≠ none ∧
        1024 ≤ ((given 'P' argv).map atoi).getD 0 ∧ ((given 'P' argv).map atoi).getD 0 ≤ 65535)

/-- What the loop leaves in the fields that the checks look at. -/
theorem foldl_given (argv : List ClientOption) :
    (argv.foldl ClientArgs.set defaultArgs).inputFile = given 'i' argv ∧
      (argv.foldl ClientArgs.set defaultArgs).host = given 'H' argv ∧
      (argv.foldl ClientArgs.set defaultArgs).udsDir = given 'D' argv ∧
      (argv.foldl ClientArgs.set defaultArgs).port = ((given 'P' argv).map atoi).getD 0 := by
  have hstring : ∀ (f : ClientArgs → Option (List Char)) (k : Char), f defaultArgs = none →
      (∀ c o, f (ClientArgs.set c o) = if ClientOption.opt o = k then some o.optarg else f c) →
        f (argv.foldl ClientArgs.set defaultArgs) = given k argv := by
    intro f k hf hset
    rw [foldl_field hset, hf]
    unfold given
    cases last ClientOption.opt k argv <;> rfl
  refine ⟨hstring _ 'i' rfl ?_, hstring _ 'H' rfl ?_, hstring _ 'D' rfl ?_, ?_⟩
  · intro c o
    cases o <;> rfl
  · intro c o
    cases o <;> rfl
  · intro c o
    cases o <;> rfl
  · rw [foldl_field (f := ClientArgs.port) (k := 'P') (g := fun o => atoi o.optarg)]
    · unfold given
      cases last ClientOption.opt 'P' argv <;> rfl
    · intro c o
      cases o <;> rfl

theorem parseArgs_ok {argv : List ClientOption} (h : ∀ o ∈ argv, o.exits = none) :
    parseArgs argv =
      if (argv.foldl ClientArgs.set defaultArgs).fill.isRefused then .error 1
      else .ok (argv.foldl ClientArgs.set defaultArgs).fill := by
  unfold parseArgs
  rw [parseOptions_ok h]

theorem parseArgs_exits {argv post : List ClientOption} {o : ClientOption} {code : ℤ}
    (h : ∀ o ∈ argv, o.exits = none) (ho : o.exits = some code) :
    parseArgs (argv ++ o :: post) = .error code := by
  unfold parseArgs
  rw [parseOptions_exits h ho]

/-- **The client's command line.**  What is accepted is well formed.  A well-formed configuration
is read from every command line that has the options it is printed with, in any order and whatever
they overwrite.  A command line is accepted by the last argument of each option; the program exits
with 0 just when it comes to the option for help, and otherwise with 1. -/
theorem arguments_parsed :
    (∀ argv c, parseArgs argv = .ok c → c.WellFormed) ∧
      (∀ c : ClientArgs, c.WellFormed → ∀ argv,
        (∀ k, last ClientOption.opt k argv = last ClientOption.opt k c.print) →
          parseArgs argv = .ok c) ∧
      (∀ argv, (∃ c, parseArgs argv = .ok c) ↔ Accepts argv) ∧
      ∀ argv code, parseArgs argv = .error code → (code = 0 ∨ code = 1) ∧
        (code = 0 ↔ ∃ pre post, argv = pre ++ .help :: post ∧ ∀ o ∈ pre, o.exits = none) := by
  refine ⟨fun argv c h => ?_, fun c hc argv hlast => ?_, fun argv => ⟨?_, fun h => ?_⟩,
    fun argv code h => ?_⟩
  · rcases exits_cases argv with hall | ⟨pre, o, post, code, rfl, hpre, ho⟩
    · rw [parseArgs_ok hall] at h
      split_ifs at h with hrefused
      rw [← Except.ok.inj h]
      exact ClientArgs.fill_wellFormed (Bool.eq_false_of_not_eq_true hrefused)
    · rw [parseArgs_exits hpre ho] at h
      cases h
  · have hall := exits_of_last hlast (print_exits c)
    obtain ⟨hfill, hrefused⟩ := hc.filled
    have hport : 0 ≤ c.port ∧ c.port < 2 ^ 31 := by
      rcases hc.transport with ht | ht
      · omega
      · omega
    rw [parseArgs_ok hall, ClientArgs.set_overwrites.foldl_eq_of_last hlast, foldl_print hport,
      hfill, hrefused]
    rfl
  · intro hok
    obtain ⟨c, h⟩ := hok
    rcases exits_cases argv with hall | ⟨pre, o, post, code, rfl, hpre, ho⟩
    · rw [parseArgs_ok hall] at h
      split_ifs at h with hrefused
      obtain ⟨hinput, htransport⟩ :=
        ClientArgs.fill_accepted.mp (Bool.eq_false_of_not_eq_true hrefused)
      obtain ⟨h₁, h₂, h₃, h₄⟩ := foldl_given argv
      rw [h₁] at hinput
      rw [h₂, h₃, h₄] at htransport
      exact ⟨hall, hinput, htransport⟩
    · rw [parseArgs_exits hpre ho] at h
      cases h
  · obtain ⟨h₁, h₂, h₃, h₄⟩ := foldl_given argv
    have haccepted : (argv.foldl ClientArgs.set defaultArgs).fill.isRefused = false := by
      rw [ClientArgs.fill_accepted, h₁, h₂, h₃, h₄]
      exact ⟨h.input, h.transport⟩
    refine ⟨(argv.foldl ClientArgs.set defaultArgs).fill, ?_⟩
    rw [parseArgs_ok h.exits, haccepted]
    rfl
  · rcases exits_cases argv with hall | ⟨pre, o, post, code', rfl, hpre, ho⟩
    · rw [parseArgs_ok hall] at h
      split_ifs at h
      obtain rfl := Except.error.inj h
      refine ⟨.inr rfl, iff_of_false (by decide) ?_⟩
      rintro ⟨pre, post, rfl, -⟩
      have hhelp := hall .help (List.mem_append_right _ List.mem_cons_self)
      cases hhelp
    · have hcode : code' = code :=
        Except.error.inj ((parseArgs_exits hpre ho).symm.trans h)
      rw [hcode] at ho
      refine ⟨(exits_code ho).imp And.right And.right, fun hzero => ?_, fun hhelp => ?_⟩
      · rcases exits_code ho with ⟨rfl, -⟩ | ⟨-, hone⟩
        · exact ⟨pre, post, rfl, hpre⟩
        · omega
      · obtain ⟨pre', post', heq, hpre'⟩ := hhelp
        rw [heq, parseArgs_exits hpre' (o := .help) rfl] at h
        exact (Except.error.inj h).symm

/-- A client over TCP, of whose ports the second one counts; and the same one with a directory. -/
theorem arguments_parsed_tcp :
    (∃ c, parseArgs [.port ['9'], .input ['a'], .host ['h'], .port ['8', '0', '8', '0']] = .ok c ∧
      c.WellFormed) ∧
      ∀ c, parseArgs [.port ['9'], .input ['a'], .host ['h'], .port ['8', '0', '8', '0'],
        .udsDir ['d']] ≠ .ok c := by
  obtain ⟨hsound, -, haccepts, -⟩ := arguments_parsed
  refine ⟨?_, fun c hc => ?_⟩
  · obtain ⟨c, hc⟩ := (haccepts [.port ['9'], .input ['a'], .host ['h'],
      .port ['8', '0', '8', '0']]).mpr ⟨by decide, by decide, .inr (by decide)⟩
    exact ⟨c, hc, hsound _ c hc⟩
  · rcases ((haccepts _).mp ⟨c, hc⟩).transport with ht | ht
    · exact absurd ht.1 (by decide)
    · exact absurd ht.1 (by decide)

/-! ### The options of the server -/

/-- What `getopt_long` gives, with `optarg`. -/
inductive ServerOption
  | coreMask (optarg : List Char)
  | rtPriority (optarg : List Char)
  | host (optarg : List Char)
  | port (optarg : List Char)
  | udsDir (optarg : List Char)
  | fdLimit (optarg : List Char)
  | vadData (optarg : List Char)
  | help
  | unknown
deriving DecidableEq, Repr

/-- The character of an option. -/
def ServerOption.opt : ServerOption → Char
  | coreMask _ => 'c'
  | rtPriority _ => 'p'
  | host _ => 'H'
  | port _ => 'P'
  | udsDir _ => 'D'
  | fdLimit _ => 'L'
  | vadData _ => 'v'
  | help => 'h'
  | unknown => '?'

/-- The argument of an option that has one. -/
def ServerOption.optarg : ServerOption → List Char
  | coreMask s | rtPriority s | host s | port s | udsDir s | fdLimit s | vadData s => s
  | help | unknown => []

/-- What `getenv` gives for `MACH_CORE_MASK`, `MACH_RT_PRIORITY`, and so on. -/
structure ServerEnv where
  coreMask : Option (List Char)
  rtPriority : Option (List Char)
  fdLimit : Option (List Char)
  host : Option (List Char)
  port : Option (List Char)
  udsDir : Option (List Char)
  vadData : Option (List Char)

/-- `mach_getenv`: an empty variable is not set. -/
def machGetenv (v : Option (List Char)) : Option (List Char) := v.filter (· ≠ [])

/-- The variables of `main` that the options set. -/
structure ServerSettings where
  coreMaskStr : Option (List Char)
  rtPriority : ℤ
  fdLimit : ℤ
  host : Option (List Char)
  basePort : ℤ
  udsDir : List Char
  vadPath : Option (List Char)
deriving DecidableEq, Repr

/-- What `host_buf` has room for. -/
def hostBuf (host : List Char) : List Char := host.take 255

/-- What `main` starts with. -/
def ServerSettings.ofEnv (env : ServerEnv) : ServerSettings where
  coreMaskStr := machGetenv env.coreMask
  rtPriority := (machGetenv env.rtPriority).elim (-1) atoi
  fdLimit := (machGetenv env.fdLimit).elim 4096 atoi
  host := (machGetenv env.host).map hostBuf
  basePort := (machGetenv env.port).elim 8000 atoi
  udsDir := (machGetenv env.udsDir).getD defaultUdsDir
  vadPath := machGetenv env.vadData

/-- One turn of the loop; what is unknown only prints the usage. -/
def ServerSettings.set (s : ServerSettings) : ServerOption → ServerSettings
  | .coreMask v => { s with coreMaskStr := some v }
  | .rtPriority v => { s with rtPriority := atoi v }
  | .host v => { s with host := some (hostBuf v) }
  | .port v => { s with basePort := atoi v }
  | .udsDir v => { s with udsDir := v }
  | .fdLimit v => { s with fdLimit := atoi v }
  | .vadData v => { s with vadPath := some v }
  | .help => s
  | .unknown => s

/-- The loop of `main`, which the option for help ends. -/
def serverOptions : ServerSettings → List ServerOption → Option ServerSettings
  | s, [] => some s
  | _, .help :: _ => none
  | s, o :: os => serverOptions (s.set o) os

/-- The settings that `main` goes on with, if it does. -/
def readSettings (env : ServerEnv) (argv : List ServerOption) : Option ServerSettings :=
  serverOptions (.ofEnv env) argv

/-- The last argument of an option, or the variable that stands for it. -/
def said (k : Char) (v : Option (List Char)) (argv : List ServerOption) : Option (List Char) :=
  ((last ServerOption.opt k argv).map ServerOption.optarg).or (machGetenv v)

theorem serverOptions_eq (argv : List ServerOption) (s : ServerSettings) :
    serverOptions s argv =
      if .help ∈ argv then none else some (argv.foldl ServerSettings.set s) := by
  induction argv generalizing s with
  | nil => rfl
  | cons o os ih =>
      cases o <;> simp [serverOptions, ih]

/-- **The server's settings.**  With the option for help there are none.  Otherwise each one is
given by the last argument of its option; without one by its environment variable, unless that is
empty; and otherwise by the default. -/
theorem settings_read (env : ServerEnv) (argv : List ServerOption) :
    readSettings env argv = if .help ∈ argv then none else some
      { coreMaskStr := said 'c' env.coreMask argv
        rtPriority := (said 'p' env.rtPriority argv).elim (-1) atoi
        fdLimit := (said 'L' env.fdLimit argv).elim 4096 atoi
        host := (said 'H' env.host argv).map hostBuf
        basePort := (said 'P' env.port argv).elim 8000 atoi
        udsDir := (said 'D' env.udsDir argv).getD defaultUdsDir
        vadPath := said 'v' env.vadData argv } := by
  have hfield : ∀ {β : Type} (f : ServerSettings → β) (k : Char) (v : Option (List Char))
      (g : Option (List Char) → β), f (.ofEnv env) = g (machGetenv v) →
      (∀ s o, f (ServerSettings.set s o) = if ServerOption.opt o = k then g (some o.optarg)
        else f s) →
        f (argv.foldl ServerSettings.set (.ofEnv env)) = g (said k v argv) := by
    intro β f k v g hf hset
    rw [foldl_field (f := f) (g := fun o : ServerOption => g (some o.optarg)) hset, hf]
    unfold said
    cases last ServerOption.opt k argv <;> rfl
  have hset : ∀ s : ServerSettings, s = ⟨s.coreMaskStr, s.rtPriority, s.fdLimit, s.host,
      s.basePort, s.udsDir, s.vadPath⟩ := fun _ => rfl
  unfold readSettings
  rw [serverOptions_eq, hset (argv.foldl _ _)]
  congr 2
  congr 1
  · exact hfield _ 'c' env.coreMask id rfl fun s o => by cases o <;> rfl
  · exact hfield _ 'p' env.rtPriority (Option.elim · (-1) atoi) rfl fun s o => by cases o <;> rfl
  · exact hfield _ 'L' env.fdLimit (Option.elim · 4096 atoi) rfl fun s o => by cases o <;> rfl
  · exact hfield _ 'H' env.host (Option.map hostBuf) rfl fun s o => by cases o <;> rfl
  · exact hfield _ 'P' env.port (Option.elim · 8000 atoi) rfl fun s o => by cases o <;> rfl
  · exact hfield _ 'D' env.udsDir (Option.getD · defaultUdsDir) rfl fun s o => by cases o <;> rfl
  · exact hfield _ 'v' env.vadData id rfl fun s o => by cases o <;> rfl

end MachAudio
