import OpsMaxx.Broadcast.Approval
import OpsMaxx.Strings.Regex

/-!
# How dangerous a command reads

The rules that grade a command, each a regular expression. A verb counts where a command can start:
past assignments, and past `sudo` or `doas` with its options.
-/

set_option autoImplicit false

namespace OpsMaxx.Risk

open OpsMaxx.Strings
open OpsMaxx.Strings.Regex
open OpsMaxx.Broadcast (RiskAssessment)

/-! ## Pieces of the expressions -/

def ch (c : Char) : Regex := chars (· = c)

def among (s : String) : Regex := chars s.toList.contains

def sp : Regex := chars isSpace

def ink : Regex := chars isInk

def wordChar : Regex := chars isWordChar

def letter : Regex := chars Char.isAlpha

/-- `\w+=\S+`. -/
def assignment : Regex := cat [plus wordChar, ch '=', plus ink]

/-! ## Past sudo -/

def quotedBy (q : Char) : Regex := cat [ch q, star (chars (· ≠ q)), ch q]

def SUDO_VALUE : Regex := anyOf [quotedBy '\'', quotedBy '"', plus ink]

def SUDO_VALUE_SHORT : String := "aCcDghpRrtTUu"

def SUDO_VALUE_LONG : List String :=
  ["auth-type", "chdir", "chroot", "close-from", "command-timeout", "group", "host", "login-class",
    "other-user", "prompt", "role", "type", "user"]

/-- A value in a word of its own. -/
def separateValue : Regex := cat [plus ink, plus sp, notAhead (ch '-'), SUDO_VALUE]

def SUDO_OPT : Regex :=
  anyOf
    [cat [ahead (cat [ch '-', star letter, among SUDO_VALUE_SHORT, sp]), ch '-', separateValue],
      cat [ahead (cat [lit "--".toList, words SUDO_VALUE_LONG, sp]), lit "--".toList,
        separateValue],
      cat [ch '-', plus ink],
      assignment]

def SUDO : Regex :=
  cat [words ["sudo", "doas"], plus sp, star (cat [SUDO_OPT, plus sp])]

def commandStart (rest : Regex) : Regex :=
  cat [alt start (among ";&|(\n"), star sp, star (cat [assignment, plus sp]), opt SUDO, rest]

def atCommandStart (verbs : Regex) : Regex := commandStart (cat [verbs, boundary])

def flagAnywhere (verb : String) (flags : Regex) : Regex :=
  commandStart (cat [lit verb.toList,
    star (cat [plus sp, plus (chars fun c => isInk c && !";|&".toList.contains c)]), plus sp, flags,
    boundary])

/-! ## The rules -/

structure Rule where
  rx : Regex
  why : String

def noneOf (s : String) : Regex := star (chars fun c => !s.toList.contains c)

/-- `-[a-zA-Z]*R[a-zA-Z]*|--recursive`. -/
def recursiveFlag : Regex :=
  alt (cat [ch '-', star letter, ch 'R', star letter]) (lit "--recursive".toList)

/-- A text in either case. -/
def litAnyCase (w : String) : Regex :=
  cat (w.toList.map fun c => chars fun d => d.toLower = c)

def DESTRUCTIVE : List Rule :=
  [⟨commandStart (cat [lit "rm".toList, plus sp,
      plus (cat [anyOf [cat [ch '-', star letter, among "rf", star letter],
        lit "--recursive".toList, lit "--force".toList, lit "--no-preserve-root".toList],
        plus sp])]),
      "deletes files recursively or forcibly"⟩,
    ⟨cat [lit "-exec".toList, plus sp, opt SUDO, lit "rm".toList, boundary],
      "deletes files through find -exec"⟩,
    ⟨cat [boundary, lit "xargs".toList, plus sp, star (cat [ch '-', plus ink, plus sp]), opt SUDO,
        lit "rm".toList, boundary],
      "deletes files through xargs"⟩,
    ⟨commandStart (cat [lit "find".toList, sp, noneOf ";|&", sp, lit "-delete".toList, boundary]),
      "deletes every file find matches"⟩,
    ⟨atCommandStart (anyOf [cat [lit "mkfs".toList, opt (cat [ch '.', plus wordChar])],
        lit "fdisk".toList, lit "parted".toList, lit "wipefs".toList]),
      "writes to a partition table or filesystem"⟩,
    ⟨commandStart (cat [lit "dd".toList, sp, noneOf "|;", boundary, lit "of=".toList]),
      "writes directly to a device or file with dd"⟩,
    ⟨atCommandStart (words ["shutdown", "poweroff", "halt", "reboot"]),
      "stops or restarts the machine"⟩,
    ⟨commandStart (cat [lit "systemctl".toList, plus sp,
        words ["poweroff", "reboot", "halt", "kexec"], boundary]),
      "stops or restarts the machine"⟩,
    ⟨atCommandStart (words ["userdel", "groupdel"]), "removes an account"⟩,
    ⟨cat [boundary, litAnyCase "drop", plus sp, alt (litAnyCase "database") (litAnyCase "table"),
        boundary],
      "drops a database or table"⟩,
    ⟨atCommandStart (words ["truncate", "shred"]), "destroys file contents"⟩,
    ⟨flagAnywhere "chown" recursiveFlag, "changes ownership recursively"⟩,
    ⟨flagAnywhere "chmod" recursiveFlag, "changes permissions recursively"⟩,
    ⟨commandStart (cat [words ["kill", "killall", "pkill"], plus sp,
        anyOf [lit "-9".toList, lit "-KILL".toList,
          cat [lit "-s".toList, star sp, words ["9", "KILL", "SIGKILL"]]], boundary]),
      "sends SIGKILL"⟩,
    ⟨commandStart (cat [words ["iptables", "ip6tables", "nft", "ufw"], boundary, noneOf ";|",
        anyOf [cat [boundary, lit "flush".toList, boundary],
          cat [sp, lit "-F".toList, boundary], cat [boundary, lit "reset".toList, boundary]]]),
      "clears firewall rules"⟩,
    ⟨cat [ch '>', star sp, lit "/dev/".toList, among "sn", among "dv"],
      "redirects output onto a block device"⟩,
    ⟨commandStart (cat [lit "systemctl".toList, plus sp, words ["stop", "disable", "mask"],
        boundary]),
      "stops or disables a service"⟩,
    ⟨commandStart (cat [lit "service".toList, plus sp, plus ink, plus sp, lit "stop".toList,
        boundary]),
      "stops a service"⟩,
    ⟨commandStart (cat [lit "crontab".toList, plus sp, ch '-', star (chars Char.isLower), ch 'r',
        star (chars Char.isLower), boundary]),
      "removes the crontab"⟩,
    ⟨atCommandStart (words ["lvremove", "vgremove", "pvremove"]),
      "removes a volume or volume group"⟩,
    ⟨commandStart (cat [words ["zfs", "zpool"], plus sp, lit "destroy".toList, boundary]),
      "destroys a dataset or pool"⟩,
    ⟨commandStart (cat [words ["docker", "podman"], plus sp,
        opt (cat [words ["container", "image", "volume", "network", "system", "compose"], plus sp]),
        words ["rm", "rmi", "prune", "down"], boundary]),
      "removes containers, images or volumes"⟩]

def SUDO_REASON : String := "runs as root"

def ELEVATED : List Rule :=
  [⟨atCommandStart (words ["sudo", "doas"]), SUDO_REASON⟩,
    ⟨commandStart (cat [lit "systemctl".toList, plus sp, words ["restart", "reload"], boundary]),
      "restarts a service"⟩,
    ⟨commandStart (cat [lit "service".toList, plus sp, plus ink, plus sp,
        words ["restart", "reload"], boundary]),
      "restarts a service"⟩,
    ⟨commandStart (cat [words ["apt", "apt-get", "yum", "dnf", "apk", "pacman"], plus sp,
        words ["install", "remove", "purge", "autoremove", "upgrade", "dist-upgrade",
          "full-upgrade", "update"], boundary]),
      "changes installed packages"⟩,
    ⟨commandStart (cat [words ["docker", "podman"], plus sp,
        opt (cat [words ["container", "compose"], plus sp]), words ["stop", "kill"], boundary]),
      "stops containers"⟩,
    ⟨commandStart (cat [words ["docker", "podman"], plus sp,
        opt (cat [lit "compose".toList, plus sp]), lit "build".toList, boundary]),
      "runs a Dockerfile, which can execute anything its author wrote"⟩]

/-! ## The grade -/

def reasonsOf (rules : List Rule) (command : Text) : List String :=
  (rules.filter fun r => r.rx.test command).map Rule.why

def assessCommand (command : Text) : RiskAssessment :=
  if reasonsOf DESTRUCTIVE command ≠ [] then ⟨.destructive, reasonsOf DESTRUCTIVE command⟩
  else if reasonsOf ELEVATED command ≠ [] then ⟨.elevated, reasonsOf ELEVATED command⟩
  else ⟨.ordinary, []⟩

end OpsMaxx.Risk
