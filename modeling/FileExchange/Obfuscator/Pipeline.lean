import FileExchange.Obfuscator.Arithmetic

/-!
# Obfuscator.Pipeline — the passes over the whole text, and the order of all passes

* `importObfuscation`, `antiDebugFunctions`, `deadCodeInjection` : the passes that put code of their
  own around the text;
* `Pass.run` : what a pass makes of the memory that holds the content;
* `stages`   : the passes of `obfuscate_code_advanced`, each with the memory that it finds.
-/

namespace FileExchange
namespace Obfuscator

open Lib Lib.Scanner Lib.Printf

/-! ## `import_obfuscation` -/

def obfuscatedHeaders : CString :=
  [
    "/* OBFUSCATED HEADERS */\n",
    "#define __INCLUDE_STDIO\n",
    "#define __INCLUDE_STDLIB\n",
    "#define __INCLUDE_STRING\n",
    "#define __INCLUDE_TIME\n",
    "#define __INCLUDE_CTYPE\n",
    "#define __INCLUDE_UNISTD\n",
    "#define __INCLUDE_SYS_STAT\n",
    "#define __INCLUDE_STDINT\n",
    "#define __INCLUDE_MATH\n\n",
    "#ifdef __INCLUDE_STDIO\n#include <stdio.h>\n#endif\n",
    "#ifdef __INCLUDE_STDLIB\n#include <stdlib.h>\n#endif\n",
    "#ifdef __INCLUDE_STRING\n#include <string.h>\n#endif\n",
    "#ifdef __INCLUDE_TIME\n#include <time.h>\n#endif\n",
    "#ifdef __INCLUDE_CTYPE\n#include <ctype.h>\n#endif\n",
    "#ifdef __INCLUDE_UNISTD\n#include <unistd.h>\n#endif\n",
    "#ifdef __INCLUDE_SYS_STAT\n#include <sys/stat.h>\n#endif\n",
    "#ifdef __INCLUDE_STDINT\n#include <stdint.h>\n#endif\n",
    "#ifdef __INCLUDE_MATH\n#include <math.h>\n#endif\n\n"
  ].flatMap ascii

/-- The text behind the `#include` lines at its beginning, inside of such a line or not. -/
def skipIncludes : Bool → CString → CString
  | _, [] => []
  | true, c :: t => if c = 10 then skipIncludes false t else skipIncludes true t
  | false, c :: t =>
      -- a last line without an end is not skipped
      if ascii "#include" <+: c :: t ∧ 10 ∈ t then skipIncludes true t else c :: t

/-- `import_obfuscation`. -/
def importObfuscation (text : CString) : CString :=
  obfuscatedHeaders ++ skipIncludes false text

/-! ## `anti_debug_functions` -/

def antiDebugCode : CString :=
  [
    "/* ANTI-DEBUG PROTECTION */\n",
    "#ifdef __linux__\n",
    "static inline void __obfuscator_anti_debug(void) \x7b\n",
    "    volatile char *debug_path = \"/proc/self/status\";\n",
    "    FILE *f = fopen(debug_path, \"r\");\n",
    "    if (f) \x7b\n",
    "        char buf[1024];\n",
    "        while (fgets(buf, sizeof(buf), f)) \x7b\n",
    "            if (strstr(buf, \"TracerPid:\") && buf[strlen(\"TracerPid:\")] != '0') \x7b\n",
    "                exit(1);\n",
    "            \x7d\n",
    "        \x7d\n",
    "        fclose(f);\n",
    "    \x7d\n",
    "\x7d\n",
    "#define __OBFUSCATOR_CHECK_DEBUG() __obfuscator_anti_debug()\n",
    "#else\n",
    "#define __OBFUSCATOR_CHECK_DEBUG()\n",
    "#endif\n\n"
  ].flatMap ascii

def mainHead : CString :=
  ascii "int main(int argc, char **argv) \x7b\n__OBFUSCATOR_CHECK_DEBUG();"

/-- The text behind the first opening brace. -/
def behindBrace (text : CString) : CString :=
  (text.dropWhile (· ≠ 123)).drop 1

/-- `anti_debug_functions`. -/
def antiDebugFunctions (text : CString) : CString :=
  match findSub (ascii "main(") text with
  | some mainPos =>
      antiDebugCode ++ (text.take mainPos ++ (mainHead ++ behindBrace (text.drop mainPos)))
  | none => antiDebugCode ++ text

/-! ## `dead_code_injection` -/

def deadCodeFormat : Nat → CString
  | 0 => [
      "\n/* DEAD CODE PROTECTION */\n",
      "static volatile int __dead_var_%d = %d;\n",
      "for (int __i_%d = 0; __i_%d < %d; __i_%d++) \x7b\n",
      "    __dead_var_%d += (__i_%d * %d) %% %d;\n",
      "\x7d\n"
    ].flatMap ascii
  | 1 => [
      "\n/* OPAQUE DEAD CODE */\n",
      "do \x7b\n",
      "    int __temp_%d = rand() %% %d;\n",
      "    if (__temp_%d > %d) break;\n",
      "    volatile double __math_%d = sqrt(__temp_%d * %d.0);\n",
      "\x7d while(0);\n"
    ].flatMap ascii
  | 2 => [
      "\n/* FAKE CRYPTO */\n",
      "unsigned char __fake_key_%d[%d] = \x7b0\x7d;\n",
      "for (int __k_%d = 0; __k_%d < %d; __k_%d++) \x7b\n",
      "    __fake_key_%d[__k_%d] = (__k_%d * %d + %d) & 0xFF;\n",
      "\x7d\n"
    ].flatMap ascii
  | 3 => [
      "\n/* COMPLEX CALCULATION */\n",
      "long __complex_%d = %ldL;\n",
      "__complex_%d = (__complex_%d * %ldL) / %ldL;\n",
      "__complex_%d ^= %ldL;\n"
    ].flatMap ascii
  | 4 => [
      "\n/* POINTER ARITHMETIC */\n",
      "void *__ptr_%d = malloc(%d);\n",
      "if (__ptr_%d) \x7b\n",
      "    memset(__ptr_%d, %d, %d);\n",
      "    free(__ptr_%d);\n",
      "\x7d\n"
    ].flatMap ascii
  | 5 => [
      "\n/* BIT MANIPULATION */\n",
      "unsigned int __bits_%d = 0x%x;\n",
      "__bits_%d = (__bits_%d << %d) | (__bits_%d >> %d);\n",
      "__bits_%d ^= 0x%x;\n"
    ].flatMap ascii
  | 6 => [
      "\n/* STRING OPERATIONS */\n",
      "char __str_%d[%d];\n",
      "snprintf(__str_%d, sizeof(__str_%d), \"%%s%%d\", \"fake_\", %d);\n",
      "volatile size_t __len_%d = strlen(__str_%d);\n"
    ].flatMap ascii
  | _ => [
      "\n/* RANDOM MATH */\n",
      "double __math_%d = %f;\n",
      "__math_%d = sin(__math_%d) * cos(__math_%d) / tan(__math_%d + %f);\n"
    ].flatMap ascii

/-- `%x`. -/
def formatHex (n : Nat) : CString :=
  (Nat.toDigits 16 n).map fun c => c.toNat.toUInt8

/-- `%f` of `n / 10.0`. -/
def formatTenths (n : Nat) : CString :=
  dec (n / 10) ++ ascii "." ++ dec (n % 10) ++ ascii "00000"

/-- The arguments of `sprintf`, each of them from a draw of its own. -/
def deadCodeOperands (r : Nat → Nat) : Nat → List CString
  | 0 =>
      [dec (r 0 % 1000), dec (r 1 % 1000), dec (r 2 % 1000), dec (r 3 % 1000), dec (r 4 % 100),
        dec (r 5 % 1000), dec (r 6 % 1000), dec (r 7 % 1000), dec (r 8 % 100), dec (r 9 % 1000)]
  | 1 =>
      [dec (r 0 % 1000), dec (r 1 % 1000), dec (r 2 % 1000), dec (r 3 % 500), dec (r 4 % 1000),
        dec (r 5 % 1000), dec (r 6 % 1000)]
  | 2 =>
      [dec (r 0 % 1000), dec (r 1 % 50 + 10), dec (r 2 % 1000), dec (r 3 % 1000),
        dec (r 4 % 50 + 10), dec (r 5 % 1000), dec (r 6 % 1000), dec (r 7 % 1000),
        dec (r 8 % 1000), dec (r 9 % 256), dec (r 10 % 256)]
  | 3 =>
      [dec (r 0 % 1000), dec (r 1 % 10000), dec (r 2 % 1000), dec (r 3 % 1000),
        dec (r 4 % 1000 + 1), dec (r 5 % 1000 + 1), dec (r 6 % 1000), dec (r 7 % 10000)]
  | 4 =>
      [dec (r 0 % 1000), dec (r 1 % 100 + 1), dec (r 2 % 1000), dec (r 3 % 1000),
        dec (r 4 % 256), dec (r 5 % 100 + 1), dec (r 6 % 1000)]
  | 5 =>
      [dec (r 0 % 1000), formatHex (r 1 % 0xFFFF), dec (r 2 % 1000), dec (r 3 % 1000),
        dec (r 4 % 8), dec (r 5 % 1000), dec (32 - r 6 % 8), dec (r 7 % 1000),
        formatHex (r 8 % 0xFFFF)]
  | 6 =>
      [dec (r 0 % 1000), dec (r 1 % 50 + 20), dec (r 2 % 1000), dec (r 3 % 1000),
        dec (r 4 % 10000), dec (r 5 % 1000), dec (r 6 % 1000)]
  | _ =>
      [dec (r 0 % 1000), formatTenths (r 1 % 1000), dec (r 2 % 1000), dec (r 3 % 1000),
        dec (r 4 % 1000), dec (r 5 % 1000), formatTenths (r 6 % 1000)]

/-- How many of the arguments are drawn. -/
def deadCodeDraws (method : Nat) : Nat :=
  (deadCodeOperands id method).length

/-- The `dead_code` after `used` draws. -/
def deadCode (rand : Draws) (used : Nat) : CString :=
  let method := rand used % 8
  sprintf (deadCodeFormat method)
    (deadCodeOperands (rand.argument (used + 1) (deadCodeDraws method)) method)

/-- `dead_code_injection`, whose loop over the text has at most one round: the result and the draws
taken. -/
def deadCodeInjection (rand : Draws) (used : Nat) (text : CString) : CString × Nat :=
  if text = [] then ([], 0)
  else if rand used % 10 = 0 then
    (text ++ deadCode rand (used + 1), 2 + deadCodeDraws (rand (used + 1) % 8))
  else (text, 1)

/-! ## All passes -/

inductive Pass where
  | imports
  | polymorphic
  | metamorphic
  | antiDebug
  | strings
  | flattening
  | predicates
  | arithmetic
  | deadCode
  deriving DecidableEq

/-- A pass that has no loop over the characters. -/
def wholeText (used : Nat) (out : CString) : Ending PassState UInt8 :=
  { out := out, state := { used := used, counter := 0 }, passed := false, stopped := true }

section Passes

variable (config : Config) (pools : Pools) (rand : Draws)

/-- The switch that a pass looks at first. -/
def Pass.enabled : Pass → Bool
  | polymorphic => config.enablePolymorphic
  | metamorphic => config.enableMetamorphic
  | strings => config.enableStringObfuscation
  | flattening => config.enableControlFlow
  | arithmetic => config.enableArithmeticObfuscation
  | deadCode => config.enableJunkCode
  | _ => true

def Pass.run (used : Nat) (mem : Bytes) : Pass → Ending PassState UInt8
  | imports => wholeText used (importObfuscation (mem.takeWhile (· ≠ 0)))
  | polymorphic => polymorphicTransform config used mem
  | metamorphic => metamorphicEngine config rand used mem
  | antiDebug => wholeText used (antiDebugFunctions (mem.takeWhile (· ≠ 0)))
  | strings => advancedStringObfuscation config pools rand used mem
  | flattening => controlFlowFlattening config used mem
  | predicates => opaquePredicates pools rand used mem
  | arithmetic => arithmeticObfuscationAdvanced config rand used mem
  | deadCode =>
      let injected := deadCodeInjection rand used (mem.takeWhile (· ≠ 0))
      wholeText (used + injected.2) injected.1

/-- The calls in `obfuscate_code_advanced`. -/
def calls : List Pass :=
  [.imports, .polymorphic, .metamorphic] ++
    (if Level.normal.toNat ≤ config.level.toNat then
      [.antiDebug] ++ (if config.enableStringObfuscation then [.strings] else [])
    else []) ++
    (if Level.medium.toNat ≤ config.level.toNat then
      [.flattening, .predicates] ++
        (if config.enableArithmeticObfuscation then [.arithmetic] else [])
    else []) ++
    (if Level.extreme.toNat ≤ config.level.toNat then [.deadCode] else []) ++
    (if Level.quantum.toNat ≤ config.level.toNat then
      (List.replicate 3 [.polymorphic, .metamorphic]).flatten
    else [])

/-- `strcpy(content, result)`, up to the first terminator in `result`; what stands behind it
remains. -/
def overwrite (buffer : Bytes) (result : CString) : Bytes :=
  let copied := result.takeWhile (· ≠ 0)
  copied ++ 0 :: buffer.drop (copied.length + 1)

/-- A pass, the draws before it, and the memory from the content on that it finds. -/
structure Stage where
  pass : Pass
  used : Nat
  mem : Bytes

/-- The passes one after another over the buffer, where `heap` tells what stands behind the buffer
when so many of them are still to come.  A pass that runs off the memory is the last. -/
def stages (heap : Nat → Bytes) : List Pass → Nat → Bytes → List Stage
  | [], _, _ => []
  | p :: ps, used, buffer =>
      let mem := buffer ++ heap ps.length
      let e := p.run config pools rand used mem
      { pass := p, used := used, mem := mem } ::
        if e.stopped then stages heap ps e.state.used (overwrite buffer e.out) else []

/-- `obfuscate_code_advanced` for the bytes of an input file, which `read_file` terminates. -/
def obfuscateCodeAdvanced (heap : Nat → Bytes) (file : Bytes) : List Stage :=
  stages config pools rand heap ((calls config).filter (Pass.enabled config)) 0 (file ++ [0])

end Passes

end Obfuscator
end FileExchange
