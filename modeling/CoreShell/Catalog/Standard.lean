import CoreShell.Axis
import CoreShell.Catalog

/-!
# Standard Catalogues

What is known about the units of the Java runtime library, which programs
call but never submit. Input, output, reflection, networking and concurrency
have side effects and are not deterministic; clocks, random numbers and
streams add to the second list.

## Main definitions

* `Catalog.standard`: The standard catalogue of an axis.
* `Catalog.ofConfig`: The catalogue a configuration asks for on an axis.
-/

namespace CoreShell

namespace Catalog

/-- Runtime units that are free of side effects. -/
def runtimeStrict : List String :=
  ["java.lang.Object.clone()",
   "java.lang.Object.hashCode()",
   "java.lang.Object.toString()",
   "java.lang.Object.getClass()",
   "java.lang.Class.getSimpleName()",
   "java.lang.Class.privateGetPublicMethods()",
   "java.lang.Class.getGenericInfo()"]

/-- Runtime packages whose effects stay within their own domain. -/
def runtimeDomain : List String :=
  ["java.util.logging.", "java.util.function.BiConsumer"]

/-- Runtime packages with side effects. -/
def runtimeImpure : List String :=
  ["java.io.",
   "java.nio.",
   "java.reflect.",
   "jdk.internal.",
   "sun.management.",
   "sun.reflect.",
   "java.net.",
   "java.security.",
   "javax.xml",
   "sun.invoke.",
   "javax.management.",
   "org.w3c.",
   "java.util.concurrent.",
   "java.util.logging.",
   "java.lang.invoke."]

/-- Runtime units whose outcome does not follow from their inputs. -/
def runtimeRandom : List String :=
  ["java.util.stream",
   "java.lang.Runnable",
   "java.util.Random",
   "java.lang.Math.random(",
   "java.lang.System.currentTimeMillis(",
   "java.lang.System.nanoTime(",
   "java.time.LocalDate.now(",
   "java.time.LocalTime.now(",
   "java.time.LocalDateTime.now(",
   "java.time.Instant.now(",
   "java.util.UUID.randomUUID("]

/-- The standard catalogue of an axis. -/
def standard : Axis → Catalog
  | .purity =>
    ((({} : Catalog).withStrict runtimeStrict).withDomain runtimeDomain).withNot runtimeImpure
  | .determinism =>
    (({} : Catalog).withNot runtimeImpure).withNot runtimeRandom

/-- The catalogue a configuration asks for on an axis. -/
def ofConfig (axis : Axis) (config : CatalogConfig) : Catalog :=
  config.toCatalog (standard axis)

end Catalog

end CoreShell
