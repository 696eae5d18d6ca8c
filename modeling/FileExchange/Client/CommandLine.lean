import Mathlib.Data.List.GetD
import FileExchange.CLibrary

/-!
# Client.CommandLine — the arguments of `client.c`

One loop collects the connection options wherever they stand; the command and its arguments are
read at fixed places, once the client is connected.

* `parseOptions`, `executeCommand` : the two readings of `argv`;
* `inetPton`, `clientMain` : the address in between, without which there is no connection;
* `WithOptions` : connection options added to the arguments of a command;
* `parseOptions_of_withOptions` : the loop finds all of them;
* `sameOperation_iff` : the command survives if and only if they ask for an address that can be
  read and stand behind its arguments, and these are not an upload without recipient.
-/

namespace FileExchange

open Lib

/-! ## The two readings -/

/-- `server_ip` and `port`. -/
structure ServerAddress where
  serverIp : CString
  port : Int
  deriving DecidableEq, Repr

/-- `"127.0.0.1"` and `DEFAULT_PORT`. -/
def ServerAddress.default : ServerAddress :=
  { serverIp := ascii "127.0.0.1", port := 5151 }

def ipOption : CString := ascii "--ip"

def portOption : CString := ascii "--port"

/-- The loop over the arguments behind the program's name. -/
def parseOptions : ServerAddress → List CString → ServerAddress
  | a, opt :: value :: rest =>
      if opt = ipOption then parseOptions { a with serverIp := value } rest
      else if opt = portOption then parseOptions { a with port := atoi value } rest
      else parseOptions a (value :: rest)
  -- there is no argument behind the last one
  | a, _ => a

/-- What the client goes on to do once it is connected. -/
inductive Operation
  | uploadFileSsl (localFilepath remoteFilename recipient : CString)
  | downloadFileSsl (remoteFilename localFilepath : CString)
  | listFilesSsl
  | usage
  | unknownCommand (cmdStr : CString)
  deriving DecidableEq, Repr

/-- `argv[i]`. -/
def arg (argv : List CString) (i : Nat) : CString :=
  argv.getD i []

def executeCommand (argv : List CString) : Operation :=
  let argc := argv.length
  let cmdStr := arg argv 1
  if cmdStr = ascii "upload" then
    if argc < 4 then .usage
    else
      let recipient := if argc ≥ 5 then arg argv 4 else []
      .uploadFileSsl (arg argv 2) (arg argv 3) recipient
  else if cmdStr = ascii "download" then
    if argc < 4 then .usage else .downloadFileSsl (arg argv 2) (arg argv 3)
  else if cmdStr = ascii "list" then .listFilesSsl
  else .unknownCommand cmdStr

/-- A number of an address in dotted notation: no sign, no leading zero, one byte. -/
def octet (part : CString) : Option UInt8 :=
  let n := Decimal.ofBytes part
  if !part.isEmpty && part.all Decimal.isDigit && (part.length = 1 || part.headD 0 ≠ 48) &&
      n ≤ 255 then some n.toUInt8
  else none

/-- The four bytes that `inet_pton(AF_INET, s, ..)` reads from `s`. -/
def inetPton (s : CString) : Option Bytes :=
  let parts := s.splitOn 46
  if parts.length = 4 then parts.mapM octet else none

/-- `struct sockaddr_in`. -/
structure SockAddr where
  sinAddr : Bytes
  sinPort : UInt16
  deriving DecidableEq, Repr

/-- `serv_addr`, unless `server_ip` is no address. -/
def ServerAddress.servAddr (a : ServerAddress) : Option SockAddr :=
  (inetPton a.serverIp).map fun sinAddr => { sinAddr := sinAddr, sinPort := UInt16.ofInt a.port }

/-- How far the client comes. -/
inductive ClientRun
  | usage
  | invalidAddress
  | executed (servAddr : SockAddr) (operation : Operation)
  deriving DecidableEq, Repr

/-- `main`, for a server that accepts the connection. -/
def clientMain (argv : List CString) : ClientRun :=
  if argv.length < 2 then .usage
  else
    match (parseOptions .default (argv.drop 1)).servAddr with
    | none => .invalidAddress
    | some servAddr => .executed servAddr (executeCommand argv)

example : inetPton (ascii "127.0.0.1") = some [127, 0, 0, 1] := by decide +kernel
example : inetPton (ascii "localhost") = none := by decide +kernel

/-! ## Commands and options -/

/-- Neither `"--ip"` nor `"--port"`. -/
def isPlain (s : CString) : Prop :=
  s ≠ ipOption ∧ s ≠ portOption

instance : DecidablePred isPlain := fun s => by
  unfold isPlain
  infer_instance

/-- The arguments of a command without options. -/
inductive CommandArgs : List CString → Prop
  | list : CommandArgs [ascii "list"]
  | download {remoteFilename localFilepath : CString} (hremote : isPlain remoteFilename)
      (hlocal : isPlain localFilepath) :
      CommandArgs [ascii "download", remoteFilename, localFilepath]
  | upload {localFilepath remoteFilename : CString} (hlocal : isPlain localFilepath)
      (hremote : isPlain remoteFilename) :
      CommandArgs [ascii "upload", localFilepath, remoteFilename]
  | uploadTo {localFilepath remoteFilename recipient : CString} (hlocal : isPlain localFilepath)
      (hremote : isPlain remoteFilename) (hrecipient : isPlain recipient) :
      CommandArgs [ascii "upload", localFilepath, remoteFilename, recipient]

inductive ConnectionOption
  | ip (value : CString)
  | port (value : CString)
  deriving DecidableEq, Repr

namespace ConnectionOption

def name : ConnectionOption → CString
  | ip _ => ipOption
  | port _ => portOption

def value : ConnectionOption → CString
  | ip value => value
  | port value => value

theorem name_ne_nil (o : ConnectionOption) : o.name ≠ [] := by
  have hnames : ipOption ≠ [] ∧ portOption ≠ [] := by decide
  cases o with
  | ip value => exact hnames.1
  | port value => exact hnames.2

/-- The two arguments of an option. -/
def words (o : ConnectionOption) : List CString :=
  [o.name, o.value]

/-- What an option asks for. -/
def apply (a : ServerAddress) : ConnectionOption → ServerAddress
  | ip value => { a with serverIp := value }
  | port value => { a with port := atoi value }

end ConnectionOption

/-- `args'` are the arguments `args` with `options` added, in this order, at any places. -/
inductive WithOptions : List CString → List ConnectionOption → List CString → Prop
  | nil : WithOptions [] [] []
  | arg (s : CString) {args args' : List CString} {options : List ConnectionOption} :
      WithOptions args options args' → WithOptions (s :: args) options (s :: args')
  | option (o : ConnectionOption) {args args' : List CString} {options : List ConnectionOption} :
      WithOptions args options args' →
        WithOptions args (o :: options) (o.name :: o.value :: args')

theorem isPlain_of_commandArgs {args : List CString} (h : CommandArgs args) :
    ∀ s ∈ args, isPlain s := by
  cases h with
  | list => decide
  | download hremote hlocal =>
      simpa [hremote, hlocal] using (by decide : isPlain (ascii "download"))
  | upload hlocal hremote => simpa [hremote, hlocal] using (by decide : isPlain (ascii "upload"))
  | uploadTo hlocal hremote hrecipient =>
      simpa [hremote, hlocal, hrecipient] using (by decide : isPlain (ascii "upload"))

/-! ## The option loop -/

theorem parseOptions_cons_of_isPlain {s : CString} (h : isPlain s) (a : ServerAddress)
    (rest : List CString) : parseOptions a (s :: rest) = parseOptions a rest := by
  cases rest with
  | nil => rfl
  | cons value rest => rw [parseOptions, if_neg h.1, if_neg h.2]

theorem parseOptions_option (o : ConnectionOption) (a : ServerAddress) (rest : List CString) :
    parseOptions a (o.name :: o.value :: rest) = parseOptions (o.apply a) rest := by
  have hne : portOption ≠ ipOption := by decide
  cases o with
  | ip value => exact if_pos rfl
  | port value => exact (if_neg hne).trans (if_pos rfl)

/-- The loop takes every option, wherever it stands. -/
theorem parseOptions_of_withOptions {args args' : List CString} {options : List ConnectionOption}
    (h : WithOptions args options args') (hplain : ∀ s ∈ args, isPlain s) (a : ServerAddress) :
    parseOptions a args' = options.foldl ConnectionOption.apply a := by
  induction h generalizing a with
  | nil => rfl
  | arg s _ ih =>
      rw [parseOptions_cons_of_isPlain (hplain s List.mem_cons_self)]
      exact ih (fun s' hs' => hplain s' (List.mem_cons_of_mem _ hs')) a
  | option o _ ih =>
      rw [parseOptions_option, List.foldl_cons]
      exact ih hplain (o.apply a)

/-! ## The fixed places -/

/-- The options are all behind the arguments, or one of them stands in front of an argument. -/
theorem WithOptions.behind_or_before {args args' : List CString} {options : List ConnectionOption}
    (h : WithOptions args options args') :
    args' = args ++ options.flatMap ConnectionOption.words ∨
      ∃ (pre post : List CString) (o : ConnectionOption) (rest : List CString),
        args = pre ++ post ∧ post ≠ [] ∧ args' = pre ++ o.name :: o.value :: rest := by
  induction h with
  | nil =>
      exact Or.inl rfl
  | arg s _ ih =>
      rcases ih with rfl | ⟨pre, post, o, rest, rfl, hpost, rfl⟩
      · exact Or.inl rfl
      · exact Or.inr ⟨s :: pre, post, o, rest, rfl, hpost, rfl⟩
  | @option o args args' options hrest ih =>
      cases args with
      | nil =>
          -- there is nothing left that an option could stand in front of
          rcases ih with rfl | ⟨pre, post, o', rest, hnil, hpost, rfl⟩
          · exact Or.inl rfl
          · exact absurd (List.append_eq_nil_iff.1 hnil.symm).2 hpost
      | cons s args =>
          exact Or.inr ⟨[], s :: args, o, args', rfl, by simp, rfl⟩

theorem WithOptions.refl : ∀ args : List CString, WithOptions args [] args
  | [] => .nil
  | s :: args => .arg s (WithOptions.refl args)

theorem WithOptions.eq_of_nil {args args' : List CString} {options : List ConnectionOption}
    (h : WithOptions args options args') (hnil : options = []) : args' = args := by
  induction h with
  | nil => rfl
  | arg s _ ih => rw [ih hnil]
  | option o _ _ => cases hnil

theorem isPlain_ne_name {s : CString} (h : isPlain s) (o : ConnectionOption) : o.name ≠ s := by
  cases o with
  | ip value => exact h.1.symm
  | port value => exact h.2.symm

theorem executeCommand_upload (program l r : CString) (more : List CString) :
    executeCommand (program :: ascii "upload" :: l :: r :: more) =
      .uploadFileSsl l r (more.headD []) := by
  cases more with
  | nil => simp [executeCommand, arg]
  | cons recipient more => simp [executeCommand, arg]

theorem executeCommand_download (program r l : CString) (more : List CString) :
    executeCommand (program :: ascii "download" :: r :: l :: more) = .downloadFileSsl r l := by
  have hne : ascii "download" ≠ ascii "upload" := by decide
  simp [executeCommand, arg, hne]

theorem executeCommand_list (program : CString) (more : List CString) :
    executeCommand (program :: ascii "list" :: more) = .listFilesSsl := by
  have hne : ascii "list" ≠ ascii "upload" ∧ ascii "list" ≠ ascii "download" := by decide
  simp [executeCommand, arg, hne.1, hne.2]

theorem CommandArgs.ne_nil {args : List CString} (h : CommandArgs args) : args ≠ [] := by
  cases h <;> exact List.cons_ne_nil _ _

theorem clientMain_eq_executed_iff {args : List CString} (h : args ≠ []) {program : CString}
    {servAddr : SockAddr} {op : Operation} :
    clientMain (program :: args) = .executed servAddr op ↔
      (parseOptions .default args).servAddr = some servAddr ∧
        executeCommand (program :: args) = op := by
  have hargc : ¬ (program :: args).length < 2 := by
    cases args with
    | nil => exact absurd rfl h
    | cons s args => simp
  simp only [clientMain, if_neg hargc, List.drop_succ_cons, List.drop_zero]
  cases (parseOptions .default args).servAddr with
  | none => simp
  | some servAddr' => simp

/-- Without options the client connects to its own machine. -/
theorem clientMain_of_commandArgs {args : List CString} (hcommand : CommandArgs args)
    (program : CString) :
    clientMain (program :: args) =
      .executed { sinAddr := [127, 0, 0, 1], sinPort := 5151 }
        (executeCommand (program :: args)) := by
  have hdefault : ServerAddress.default.servAddr =
      some { sinAddr := [127, 0, 0, 1], sinPort := 5151 } := by decide +kernel
  refine (clientMain_eq_executed_iff hcommand.ne_nil).2 ⟨?_, rfl⟩
  rw [← hdefault]
  exact congrArg _ (parseOptions_of_withOptions (.refl args) (isPlain_of_commandArgs hcommand) _)

/-- The arguments that an operation carries, in the order of the command line. -/
def Operation.words : Operation → List CString
  | .uploadFileSsl localFilepath remoteFilename recipient =>
      [ascii "upload", localFilepath, remoteFilename, recipient]
  | .downloadFileSsl remoteFilename localFilepath =>
      [ascii "download", remoteFilename, localFilepath]
  | .listFilesSsl => [ascii "list"]
  | .usage => []
  | .unknownCommand cmdStr => [cmdStr]

/-- Each of them is the argument at its fixed place; a recipient that is missing is empty. -/
theorem getD_words_executeCommand {program : CString} {args : List CString} {op : Operation}
    (h : executeCommand (program :: args) = op) {i : Nat} (hi : i < op.words.length) :
    op.words.getD i [] = args.getD i [] := by
  have hrecipient : (if (program :: args).length ≥ 5 then arg (program :: args) 4 else []) =
      args.getD 3 [] := by
    split
    · rfl
    · next hshort =>
        rw [List.getD_eq_default]
        rw [List.length_cons] at hshort
        omega
  simp only [executeCommand, hrecipient] at h
  split at h
  · next hupload =>
      split at h
      · subst h
        cases hi
      · subst h
        match i, hi with
        | 0, _ => exact hupload.symm
        | 1, _ => rfl
        | 2, _ => rfl
        | 3, _ => rfl
  split at h
  · next hdownload =>
      split at h
      · subst h
        cases hi
      · subst h
        match i, hi with
        | 0, _ => exact hdownload.symm
        | 1, _ => rfl
        | 2, _ => rfl
  split at h
  · next hlist =>
      subst h
      match i, hi with
      | 0, _ => exact hlist.symm
  · subst h
    match i, hi with
    | 0, _ => rfl

theorem length_le_length_words {args : List CString} (hcommand : CommandArgs args)
    (program : CString) : args.length ≤ (executeCommand (program :: args)).words.length := by
  cases hcommand with
  | list =>
      rw [executeCommand_list]
      rfl
  | download hremote hlocal =>
      rw [executeCommand_download]
      rfl
  | upload hlocal hremote =>
      rw [executeCommand_upload]
      exact Nat.le_succ 3
  | uploadTo hlocal hremote hrecipient =>
      rw [executeCommand_upload]
      rfl

/-- An option in front of an argument is taken for the argument. -/
theorem executeCommand_ne_of_before {pre post rest : List CString} {o : ConnectionOption}
    (hcommand : CommandArgs (pre ++ post)) (hpost : post ≠ []) (program : CString) :
    executeCommand (program :: (pre ++ o.name :: o.value :: rest)) ≠
      executeCommand (program :: (pre ++ post)) := by
  intro heq
  rcases List.exists_cons_of_ne_nil hpost with ⟨s, post, rfl⟩
  have hs : isPlain s := isPlain_of_commandArgs hcommand s (by simp)
  have hi : pre.length < (executeCommand (program :: (pre ++ s :: post))).words.length := by
    refine lt_of_lt_of_le ?_ (length_le_length_words hcommand program)
    simp
  refine isPlain_ne_name hs o ?_
  calc o.name
      = (pre ++ o.name :: o.value :: rest).getD pre.length [] := by simp
    _ = (executeCommand (program :: (pre ++ o.name :: o.value :: rest))).words.getD
          pre.length [] := (getD_words_executeCommand rfl (heq ▸ hi)).symm
    _ = (executeCommand (program :: (pre ++ s :: post))).words.getD pre.length [] := by rw [heq]
    _ = (pre ++ s :: post).getD pre.length [] := getD_words_executeCommand rfl hi
    _ = s := by simp

/-- Behind the arguments only an upload without recipient takes notice of an option. -/
theorem executeCommand_append_iff {args more : List CString} (hcommand : CommandArgs args)
    (hmore : more.headD [] ≠ []) (program : CString) :
    executeCommand (program :: (args ++ more)) = executeCommand (program :: args) ↔
      ∀ l r, args ≠ [ascii "upload", l, r] := by
  cases hcommand with
  | list =>
      simp [executeCommand_list]
  | download hremote hlocal =>
      have hne : ascii "download" ≠ ascii "upload" := by decide
      simp [executeCommand_download, hne]
  | @upload l r hl hr =>
      have hne : executeCommand (program :: ([ascii "upload", l, r] ++ more)) ≠
          executeCommand (program :: [ascii "upload", l, r]) := by
        simp only [List.cons_append, List.nil_append, executeCommand_upload, ne_eq,
          Operation.uploadFileSsl.injEq, true_and, List.headD_nil]
        exact hmore
      exact ⟨fun heq => absurd heq hne, fun hno => absurd rfl (hno l r)⟩
  | uploadTo hlocal hremote hrecipient =>
      simp [executeCommand_upload]

/-- With options the client still does the same, if it connects at all and reads the same
command. -/
theorem executed_iff_of_withOptions {args args' : List CString} {options : List ConnectionOption}
    (hcommand : CommandArgs args) (h : WithOptions args options args') (program : CString) :
    (∃ op servAddr servAddr',
        clientMain (program :: args) = .executed servAddr op ∧
          (options.foldl ConnectionOption.apply .default).servAddr = some servAddr' ∧
          clientMain (program :: args') = .executed servAddr' op) ↔
      (inetPton (options.foldl ConnectionOption.apply .default).serverIp).isSome ∧
        executeCommand (program :: args') = executeCommand (program :: args) := by
  have haddress := parseOptions_of_withOptions h (isPlain_of_commandArgs hcommand) .default
  have hne' : args' ≠ [] := by
    rcases h.behind_or_before with rfl | ⟨pre, post, o, rest, -, -, rfl⟩
    · exact List.append_ne_nil_of_left_ne_nil hcommand.ne_nil _
    · exact List.append_ne_nil_of_right_ne_nil _ (List.cons_ne_nil _ _)
  simp only [clientMain_of_commandArgs hcommand, clientMain_eq_executed_iff hne', haddress,
    ClientRun.executed.injEq, ServerAddress.servAddr, Option.isSome_iff_exists,
    Option.map_eq_some_iff]
  constructor
  · rintro ⟨op, _, servAddr', ⟨-, rfl⟩, ⟨sinAddr, hip, -⟩, -, hop⟩
    exact ⟨⟨sinAddr, hip⟩, hop⟩
  · rintro ⟨⟨sinAddr, hip⟩, hop⟩
    exact ⟨_, _, _, ⟨rfl, rfl⟩, ⟨sinAddr, hip, rfl⟩, ⟨sinAddr, hip, rfl⟩, hop⟩

/-- For every command, every way of adding options to it, and every name of the program: the client
does the same at the address that the options ask for, if and only if this is an address, and no
option was added, or they all stand behind the arguments of the command and it is not an upload
without recipient. -/
theorem sameOperation_iff {args args' : List CString} {options : List ConnectionOption}
    (hcommand : CommandArgs args) (h : WithOptions args options args') (program : CString) :
    (∃ op servAddr servAddr',
        clientMain (program :: args) = .executed servAddr op ∧
          (options.foldl ConnectionOption.apply .default).servAddr = some servAddr' ∧
          clientMain (program :: args') = .executed servAddr' op) ↔
      (inetPton (options.foldl ConnectionOption.apply .default).serverIp).isSome ∧
        (options = [] ∨ args <+: args' ∧ ∀ l r, args ≠ [ascii "upload", l, r]) := by
  rw [executed_iff_of_withOptions hcommand h program]
  refine and_congr_right fun _ => ?_
  rcases h.behind_or_before with rfl | ⟨pre, post, o, rest, rfl, hpost, rfl⟩
  · cases options with
    | nil =>
        simp
    | cons o options =>
        have hname : ((o :: options).flatMap ConnectionOption.words).headD [] ≠ [] := o.name_ne_nil
        rw [executeCommand_append_iff hcommand hname]
        simp
  · -- an argument stands where the option stands now
    have hprefix : ¬ pre ++ post <+: pre ++ o.name :: o.value :: rest := by
      intro hpre
      cases post with
      | nil => exact hpost rfl
      | cons s post =>
          have hs := (List.cons_prefix_cons.1 ((List.prefix_append_right_inj pre).1 hpre)).1
          exact isPlain_ne_name (isPlain_of_commandArgs hcommand s (by simp)) o hs.symm
    have hne := @executeCommand_ne_of_before pre post rest o hcommand hpost program
    have hnil : options ≠ [] := fun hnil => hprefix (by rw [h.eq_of_nil hnil])
    simp [hne, hprefix, hnil]

/-- A download with both options behind it. -/
theorem sameOperation_download :
    ∃ op servAddr servAddr',
      clientMain [ascii "client", ascii "download", ascii "r", ascii "l"] =
          .executed servAddr op ∧
        ([ConnectionOption.ip (ascii "10.0.0.7"), .port (ascii "80")].foldl
          ConnectionOption.apply .default).servAddr = some servAddr' ∧
        clientMain [ascii "client", ascii "download", ascii "r", ascii "l", ipOption,
            ascii "10.0.0.7", portOption, ascii "80"] =
          .executed servAddr' op := by
  have hcommand : CommandArgs [ascii "download", ascii "r", ascii "l"] :=
    .download (by decide) (by decide)
  have hoptions : WithOptions [ascii "download", ascii "r", ascii "l"]
      [.ip (ascii "10.0.0.7"), .port (ascii "80")]
      [ascii "download", ascii "r", ascii "l", ipOption, ascii "10.0.0.7", portOption,
        ascii "80"] :=
    .arg _ (.arg _ (.arg _ (.option (.ip (ascii "10.0.0.7"))
      (.option (.port (ascii "80")) .nil))))
  have hne : ascii "download" ≠ ascii "upload" := by decide
  exact (sameOperation_iff hcommand hoptions (ascii "client")).2
    ⟨by decide +kernel, Or.inr (by simp [hne])⟩

/-- An upload without recipient takes the first option behind it for one. -/
theorem not_sameOperation_upload :
    let servAddr : SockAddr := { sinAddr := [127, 0, 0, 1], sinPort := 5151 }
    CommandArgs [ascii "upload", ascii "l", ascii "r"] ∧
      WithOptions [ascii "upload", ascii "l", ascii "r"] [.ip (ascii "127.0.0.1")]
        [ascii "upload", ascii "l", ascii "r", ipOption, ascii "127.0.0.1"] ∧
      clientMain [ascii "client", ascii "upload", ascii "l", ascii "r"] =
        .executed servAddr (.uploadFileSsl (ascii "l") (ascii "r") []) ∧
      clientMain [ascii "client", ascii "upload", ascii "l", ascii "r", ipOption,
          ascii "127.0.0.1"] =
        .executed servAddr (.uploadFileSsl (ascii "l") (ascii "r") ipOption) :=
  ⟨.upload (by decide) (by decide),
    .arg _ (.arg _ (.arg _ (.option (.ip (ascii "127.0.0.1")) .nil))), by decide +kernel,
    by decide +kernel⟩

end FileExchange
