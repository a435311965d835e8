import Anx.Cli.Aid
import Anx.Cli.ComponentExec
import Anx.Lib.LineFile

/-!
# Configuring the components of core

`deploy -c` runs `do_configure` of the resolved components. Most components of core keep one or
two files of the container in order.

- `Files`, `Shell`, `Setup`: the files of the container, by their paths in it, and what the
  functions depend on besides them;
- `write`, `append`, `rm`, `sed`, `ln`, `grepQuiet`: what the shell does with a file;
- `chroot_exec`: a command that is run in the container;
- `hostname`, `hosts`, `locale`, `mnt`, `motd`, `net`, `su`, `sudoers` (core/sudo), `timezone`,
  `unchroot`: `do_configure` of the component;
- `Component`, `do_configure`, `configureAll`, `Call`, `deploy`: the functions, and calls of
  `deploy -c`.

Modes of files are not modelled, and of a symbolic link only what the script reads behind it.
-/

namespace Anx.Cli.Configure

open Anx.Lib

/-- The files of the container, by their paths in it. -/
abbrev Files := Text → Option Text

/-- What the shell and its commands make of texts: arguments of `echo`, an unquoted variable
between two quoted texts, the `PRETTY_NAME` that a file sets, and `s|pattern|text|g` on a
line. -/
structure Shell extends Aid.Shell where
  echo : List Text → Text
  echo_eq : ∀ arguments, (∀ a ∈ arguments, '\\' ∉ a) →
    (∀ a, arguments.head? = some a → a.head? ≠ some '-') →
    echo arguments = [' '].intercalate arguments ++ ['\n']
  embed : Text → Text → Text → List Text
  embed_plain : ∀ front value back, Plain value →
    embed front value back = [front ++ value ++ back]
  prettyName : Text → Text
  sedAll : Text → Text → Text → Text

/-- What the functions depend on besides the files of the container: the shell, the files and
`getprop` of Android, the directories of the container, what the shell of `root` in it makes of
its files with a command, and variables. -/
structure Setup where
  sh : Shell
  host : Text → Option Text
  getprop : Option (Text → Text)
  hasDir : Text → Bool
  rootShell : Text → Files → Files
  METHOD : Text
  CHROOT_DIR : Text
  DISTRIB : Text
  LOCALE : Text
  LANG : Text
  USER_NAME : Text
  DNS : Text
  PATH : Text
  BOOTCLASSPATH : Text
  ANDROID_DATA : Text
  EXTERNAL_STORAGE : Text
  ANDROID_STORAGE : Text

/-- The directory of a file, with a slash behind it. -/
def dirName (path : Text) : Text := path.rdropWhile (· ≠ '/')

/-- What a command substitution makes of an output. -/
def output (text : Text) : Text := text.rdropWhile (· = '\n')

/-- `rm -f`. -/
def rm (path : Text) (files : Files) : Files := Function.update files path none

/-- `sed -i`, for a file that is there. -/
def sed (edit : List Text → List Text) (path : Text) (files : Files) : Files :=
  Function.update files path ((files path).map (editLines edit))

namespace Setup

variable (c : Setup)

/-- The file is there, or can be made. -/
def canWrite (path : Text) (files : Files) : Bool :=
  (files path).isSome || c.hasDir (dirName path)

/-- `> path`. -/
def write (path text : Text) (files : Files) : Files :=
  if c.canWrite path files then Function.update files path (some text) else files

/-- `>> path`. -/
def append (path text : Text) (files : Files) : Files :=
  if c.canWrite path files then Function.update files path (some ((files path).getD [] ++ text))
  else files

/-- `ln -sf target path`: the script finds the file of Android behind the link. -/
def ln (target path : Text) (files : Files) : Files :=
  if c.canWrite path files then Function.update files path (c.host target) else files

/-- `chroot_exec -u root`, by one of the methods that there are. -/
def chroot_exec (arguments : List Text) (files : Files) : Files :=
  if c.METHOD ∈ ["chroot".toList, "unshare".toList, "proot".toList] then
    c.rootShell ([' '].intercalate arguments) files
  else files

/-- `grep -q pattern path`. -/
def grepQuiet (pattern path : Text) (files : Files) : Bool :=
  (fileLines ((files path).getD [])).any (grep c.sh.grep pattern)

/-! ## The components -/

/-- core/hostname. -/
def hostname (files : Files) : Files :=
  c.write "/etc/hostname".toList (c.sh.echo ["localhost".toList]) files

/-- core/hosts. -/
def hosts (files : Files) : Files :=
  if c.grepQuiet "^127.0.0.1".toList "/etc/hosts".toList files then files
  else c.append "/etc/hosts".toList (c.sh.echo ["127.0.0.1 localhost".toList]) files

/-- `LOCALE` with its defaults. -/
def localeText : Text :=
  if c.LOCALE ≠ [] then c.LOCALE else if c.LANG ≠ [] then c.LANG else ['C']

/-- The lines of `echo ${LOCALE}`. -/
def localeLines : List Text := fileLines (c.sh.echo (c.sh.expand c.localeText))

/-- `grep -q '\.'` on them. -/
def hasCharmap : Bool := c.localeLines.any fun line => '.' ∈ line

/-- `inputfile` and `charmapfile`: what `awk -F. '{print $n}'` makes of them. -/
def localePart (n : Nat) : Text :=
  output (unlines (c.localeLines.map fun line => ((line.splitOn '.')[n - 1]?).getD []))

/-- `localedef` in the container, for a locale with a character map. -/
def localedef (files : Files) : Files :=
  if c.hasCharmap then
    c.chroot_exec (["localedef".toList, "-i".toList] ++ c.sh.expand (c.localePart 1) ++
      ["-c".toList, "-f".toList] ++ c.sh.expand (c.localePart 2) ++ c.sh.expand c.localeText) files
  else files

/-- The file of the locale, in the distributions that have one. -/
def localeFile : Option Text :=
  if c.DISTRIB ∈ ["debian".toList, "ubuntu".toList, "kali".toList] then
    some "/etc/default/locale".toList
  else if c.DISTRIB ∈ ["archlinux".toList, "centos".toList] then some "/etc/locale.conf".toList
  else if c.DISTRIB = "fedora".toList then some "/etc/sysconfig/i18n".toList
  else if c.DISTRIB ∈ ["slackware".toList, "alpine".toList] then
    some "/etc/profile.d/lang.sh".toList
  else none

/-- `s|^export LANG=.*|export LANG=…|g`. -/
def exportLang (line : Text) : Text :=
  Sed.replaceLine c.sh.sed "export LANG=".toList ("export LANG=".toList ++ c.localeText) line

/-- core/locale. -/
def locale (files : Files) : Files :=
  let files := c.localedef files
  match c.localeFile with
  | none => files
  | some path =>
    if c.DISTRIB = "slackware".toList then sed (List.map c.exportLang) path files
    else c.write path (c.sh.echo ["LANG=".toList ++ c.localeText]) files

/-- `grep "${CHROOT_DIR}" /proc/mounts | sed "s|${CHROOT_DIR}/*|/|g"`. -/
def mtabText : Text :=
  let mounts := (fileLines ((c.host "/proc/mounts".toList).getD [])).filter
    (grep c.sh.grep c.CHROOT_DIR)
  unlines (mounts.map (c.sh.sedAll (c.CHROOT_DIR ++ "/*".toList) ['/']))

/-- core/mnt. -/
def mnt (files : Files) : Files :=
  if c.METHOD = "proot".toList then c.ln "/proc/mounts".toList "/etc/mtab".toList files
  else c.write "/etc/mtab".toList c.mtabText (rm "/etc/mtab".toList files)

/-- The files of which the name of the system is the text. -/
def releases : List Text :=
  ["/etc/gentoo-release".toList, "/etc/fedora-release".toList, "/etc/redhat-release".toList,
    "/etc/centos-release".toList]

/-- The name of the system. -/
def linux_version (files : Files) : Text :=
  match files "/etc/os-release".toList with
  | some release => c.sh.prettyName release
  | none =>
    match releases.findSome? files with
    | some release => output release
    | none =>
      if (files "/etc/arch-release".toList).isSome then "Arch Linux".toList
      else
        match files "/etc/debian_version".toList with
        | some version => output ("Debian GNU/Linux ".toList ++ version)
        | none => "GNU/Linux".toList

/-- `echo ${motd}`. -/
def motdText (files : Files) : Text :=
  c.sh.echo (c.sh.expand (c.linux_version files ++ " [running via Linux Deploy]".toList))

/-- core/motd. -/
def motd (files : Files) : Files :=
  c.write "/etc/motd".toList (c.motdText files) (rm "/etc/motd".toList files)

/-- `grep "^nameserver" /etc/resolv.conf | awk '{print $2}'`. -/
def hostServers : Text :=
  match c.host "/etc/resolv.conf".toList with
  | none => []
  | some content =>
    output (unlines (((fileLines content).filter (grep c.sh.grep "^nameserver".toList)).map
      (field 2)))

/-- The servers that `getprop` knows. -/
def propServers : Text :=
  match c.getprop with
  | none => []
  | some getprop =>
    let dns := getprop "net.dns1".toList
    let dns_list := if dns ≠ [] then dns else []
    let dns := getprop "net.dns2".toList
    if dns ≠ [] then dns_list ++ ' ' :: dns else dns_list

/-- The name servers. -/
def dns_list : Text :=
  if c.DNS = [] ∨ c.DNS = "auto".toList then
    let dns_list := c.propServers
    let dns_list := if dns_list = [] then c.hostServers else dns_list
    if dns_list = [] then "8.8.8.8".toList else dns_list
  else c.DNS

/-- The lines of `resolv.conf`. -/
def resolvText : Text :=
  (c.sh.expand c.dns_list).flatMap fun dns => c.sh.echo ["nameserver ".toList ++ dns]

/-- core/net. -/
def net (files : Files) : Files :=
  let files := c.write "/etc/resolv.conf".toList c.resolvText files
  if (files "/etc/nsswitch.conf".toList).isSome then
    sed (List.map (removeWord "systemd".toList 0)) "/etc/nsswitch.conf".toList files
  else files

/-- The line that core/su adds. -/
def suLine : Text := "auth\tsufficient\tpam_succeed_if.so uid = 0 use_uid quiet".toList

/-- The pattern for it. -/
def suPattern : Text :=
  "^auth.*sufficient.*pam_succeed_if.so uid = 0 use_uid quiet$".toList

/-- `s/^\(auth.*\)$/…\n\1/`. -/
def addAuth (line : Text) : List Text :=
  if "auth".toList <+: line then [suLine, line] else [line]

/-- The substitution, up to the next line that starts with `auth`. -/
def addToFirst : List Text → List Text
  | [] => []
  | line :: lines =>
    addAuth line ++ if "auth".toList <+: line then lines else addToFirst lines

/-- `1,/^auth/s/^\(auth.*\)$/…\n\1/`: the end of the range is looked for after line 1. -/
def suEdit : List Text → List Text
  | [] => []
  | line :: lines => addAuth line ++ addToFirst lines

/-- The loop body of core/su. -/
def addSu (files : Files) (item : Text) : Files :=
  if (files item).isSome then
    if c.grepQuiet suPattern item files then files else sed suEdit item files
  else files

/-- core/su. -/
def su (files : Files) : Files :=
  ["/etc/pam.d/su".toList, "/etc/pam.d/su-l".toList].foldl c.addSu files

/-- The rule that core/sudo adds. -/
def sudo_str : Text := c.USER_NAME ++ " ALL=(ALL:ALL) NOPASSWD:ALL".toList

/-- The lines of `sudo.sh`. -/
def sudoText : Text :=
  c.sh.echo (c.sh.embed "[ -n \"$PS1\" -a \"$(whoami)\" = \"".toList c.USER_NAME
    "\" ] || return 0".toList) ++ c.sh.echo ["alias su=\"sudo su\"".toList]

/-- core/sudo. -/
def sudoers (files : Files) : Files :=
  let files :=
    if c.grepQuiet c.sudo_str "/etc/sudoers".toList files then files
    else c.append "/etc/sudoers".toList (c.sh.echo (c.sh.expand c.sudo_str)) files
  if c.hasDir "/etc/profile.d/".toList then
    c.write "/etc/profile.d/sudo.sh".toList c.sudoText files
  else files

/-- The time zone of Android. -/
def timezoneName : Text :=
  match c.getprop with
  | some getprop => getprop "persist.sys.timezone".toList
  | none => output ((c.host "/etc/timezone".toList).getD [])

/-- The file of a time zone in the container. -/
def zoneinfo : Text := "/usr/share/zoneinfo/".toList ++ c.timezoneName

/-- core/timezone. -/
def timezone (files : Files) : Files :=
  if c.timezoneName = [] then files
  else
    let files := rm "/etc/localtime".toList files
    let files :=
      match files c.zoneinfo with
      | some content => c.write "/etc/localtime".toList content files
      | none => files
    c.write "/etc/timezone".toList (c.sh.echo (c.sh.expand c.timezoneName)) files

/-- The lines of `/sbin/unchroot`. -/
def unchrootLines : List Text :=
  ["#!/bin/sh".toList,
    "if [ \"$(whoami)\" != \"root\" ]; then".toList,
    "sudo $0 \"$@\"; exit $?".toList,
    "fi".toList,
    "chroot_exec=$(which chroot)".toList,
    "export PATH=".toList ++ c.PATH,
    "export BOOTCLASSPATH=".toList ++ c.BOOTCLASSPATH,
    "export ANDROID_DATA=".toList ++ c.ANDROID_DATA,
    "export EXTERNAL_STORAGE=".toList ++ c.EXTERNAL_STORAGE,
    "export ANDROID_STORAGE=".toList ++ c.ANDROID_STORAGE,
    "if [ $# -eq 0 ]; then".toList,
    "$chroot_exec /proc/1/cwd su -".toList,
    "else".toList,
    "$chroot_exec /proc/1/cwd \"$@\"".toList,
    "fi".toList]

/-- What `echo` makes of them. -/
def unchrootText : Text := c.unchrootLines.flatMap fun line => c.sh.echo [line]

/-- core/unchroot. -/
def unchroot (files : Files) : Files := c.write "/sbin/unchroot".toList c.unchrootText files

end Setup

/-! ## The run -/

/-- The components of core whose configuration is modelled. -/
inductive Component where
  | hostname
  | hosts
  | locale
  | mnt
  | motd
  | net
  | su
  | sudoers
  | timezone
  | unchroot
deriving DecidableEq, Repr

namespace Setup

variable (c : Setup)

/-- `do_configure` of a component. -/
def do_configure : Component → Files → Files
  | .hostname => c.hostname
  | .hosts => c.hosts
  | .locale => c.locale
  | .mnt => c.mnt
  | .motd => c.motd
  | .net => c.net
  | .su => c.su
  | .sudoers => c.sudoers
  | .timezone => c.timezone
  | .unchroot => c.unchroot

/-- Several components, one after another. -/
def configureAll (components : List Component) (files : Files) : Files :=
  components.foldl (fun files component => c.do_configure component files) files

end Setup

/-- A call of `deploy -c`: its settings, the check of the parameters and the names. -/
structure Call (Dir : Type) where
  cli : Settings Dir
  params_check : Text → Bool
  names : List Word

section

variable {Dir : Type} (script : Dir → Option Component)

/-- The components whose `do_configure` is run; `script` tells which one a directory has. No
`do_configure` fails. -/
def Call.components (call : Call Dir) : Option (List Component) :=
  (call.cli.component_exec call.params_check (fun _ => true) call.names).map (·.filterMap script)

/-- Several calls of `deploy -c`, one after another. -/
def Setup.deploy (c : Setup) (calls : List (Call Dir)) (files : Files) : Option Files :=
  calls.foldlM (fun files call => (call.components script).map fun components =>
    c.configureAll components files) files

end

end Anx.Cli.Configure
