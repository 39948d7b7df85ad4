import SuiteGate.Text.Lines
/-!
# Sample programs

The sources of two programs that the checks of a GraalVM compile: one in C that embeds the shared
library (`embeddedSource`), and one in Java whose context is prepared when its native image is
built (`helloWorldSource`).
-/

namespace SuiteGate.GraalVm

/-- The lines of a text, each ended by a line feed. -/
def textOfLines (lines : List String) : String :=
  String.join (lines.map (· ++ "\n"))

/-- The lines before the one that says whether managed execution is used. -/
def embeddedOpening : List String := [
  "#include <stdio.h>",
  "#include \"polyglot_api.h\"",
  ""]

/-- The line that says whether managed execution is used. -/
def embeddedSwitch (sandboxed : Bool) : String :=
  "#define EMBED_MANAGED " ++ if sandboxed then "1" else "0"

/-- The lines behind the one that says whether managed execution is used. -/
def embeddedBody : List String := [
  "",
  "#define assert_ok(msg, f) \x7b if (!(f)) \x7b \\",
  "    const poly_extended_error_info* error_info; \\",
  "    poly_get_last_error_info(isolate_thread, &error_info); \\",
  "    fprintf(stderr, \"%s\\n\", error_info->error_message); \\",
  "    return fprintf(stderr, \"%s\\n\", msg); \x7d \x7d while (0)",
  "",
  "poly_isolate global_isolate;",
  "poly_thread isolate_thread;",
  "poly_engine engine;",
  "poly_context context;",
  "",
  "static poly_status create_context() \x7b",
  "    poly_status status;",
  "",
  "    if (poly_attach_thread(global_isolate, &isolate_thread)) \x7b",
  "        return poly_generic_failure;",
  "    \x7d",
  "",
  "    poly_engine_builder engine_builder;",
  "    status = poly_create_engine_builder(isolate_thread, &engine_builder);",
  "    if (status != poly_ok) \x7b",
  "        return status;",
  "    \x7d",
  "    status = poly_engine_builder_build(isolate_thread, engine_builder, &engine);",
  "    if (status != poly_ok) \x7b",
  "        return status;",
  "    \x7d",
  "",
  "    poly_context_builder builder;",
  "    status = poly_create_context_builder(isolate_thread, NULL, 0, &builder);",
  "    if (status != poly_ok) \x7b",
  "        return status;",
  "    \x7d",
  "    status = poly_context_builder_engine(isolate_thread, builder, engine);",
  "    if (status != poly_ok) \x7b",
  "        return status;",
  "    \x7d",
  "    status = poly_context_builder_option(isolate_thread, builder, \"python.VerboseFlag\", \"true\");",
  "    if (status != poly_ok) \x7b",
  "        return status;",
  "    \x7d",
  "#if EMBED_MANAGED",
  "    status = poly_context_builder_option(isolate_thread, builder, \"llvm.managed\", \"true\");",
  "    if (status != poly_ok) \x7b",
  "        return status;",
  "    \x7d",
  "#endif",
  "    status = poly_context_builder_allow_io(isolate_thread, builder, true);",
  "    if (status != poly_ok) \x7b",
  "        return status;",
  "    \x7d",
  "    return poly_context_builder_build(isolate_thread, builder, &context);",
  "\x7d",
  "",
  "static poly_status tear_down_context() \x7b",
  "    poly_status status = poly_context_close(isolate_thread, context, true);",
  "    if (status != poly_ok) \x7b",
  "        return status;",
  "    \x7d",
  "    status = poly_engine_close(isolate_thread, engine, true);",
  "    if (status != poly_ok) \x7b",
  "        return status;",
  "    \x7d",
  "    poly_detach_thread(isolate_thread);",
  "    return poly_ok;",
  "\x7d",
  "",
  "static int test_basic_python_function() \x7b",
  "    assert_ok(\"Context creation failed.\", create_context() == poly_ok);",
  "",
  "    poly_value func;",
  "    assert_ok(\"function eval failed\",",
  "              poly_context_eval(isolate_thread, context, \"python\", \"test_func\",",
  "                                \"def test_func(x):\\n  return x * x\\ntest_func\", &func) == poly_ok);",
  "",
  "    int32_t arg_value = 42;",
  "    poly_value primitive_object;",
  "    assert_ok(\"create argument failed\",",
  "              poly_create_int32(isolate_thread, context, arg_value, &primitive_object) == poly_ok);",
  "    poly_value arg[1] = \x7bprimitive_object\x7d;",
  "    poly_value value;",
  "    assert_ok(\"invocation was unsuccessful\",",
  "              poly_value_execute(isolate_thread, func, arg, 1, &value) == poly_ok);",
  "",
  "    int32_t result_value;",
  "    poly_value_as_int32(isolate_thread, value, &result_value);",
  "",
  "    assert_ok(\"value computation was incorrect\", result_value == 42 * 42);",
  "    assert_ok(\"Context tear down failed.\", tear_down_context() == poly_ok);",
  "    return 0;",
  "\x7d",
  "",
  "int32_t main(int32_t argc, char **argv) \x7b",
  "    poly_isolate_params isolate_params = \x7b\x7d;",
  "    if (poly_create_isolate(&isolate_params, &global_isolate, &isolate_thread)) \x7b",
  "        return 1;",
  "    \x7d",
  "    return test_basic_python_function();",
  "\x7d"]

/-- The source of the program that embeds the shared library. -/
def embeddedSource (sandboxed : Bool) : String :=
  textOfLines (embeddedOpening ++ [embeddedSwitch sandboxed] ++ embeddedBody)

/-- The source of the program whose context is prepared at build time. -/
def helloWorldSource : String := textOfLines [
  "import org.graalvm.polyglot.*;",
  "",
  "public class HelloWorld \x7b",
  "    static final Engine engine = Engine.newBuilder()",
  "            .allowExperimentalOptions(true)",
  "            .option(\"log.python.level\", \"FINEST\")",
  "            .build();",
  "",
  "    static \x7b",
  "        try (Context contextNull = Context.newBuilder(\"python\").engine(engine).build()) \x7b",
  "            contextNull.initialize(\"python\");",
  "        \x7d",
  "    \x7d",
  "",
  "    public static void main(String[] args) \x7b",
  "        try (Context context1 = Context.newBuilder(\"python\").engine(engine).build()) \x7b",
  "            context1.eval(\"python\", \"print(b'abc'.decode('ascii'))\");",
  "            try (Context context2 = Context.newBuilder(\"python\").engine(engine).build()) \x7b",
  "                context2.eval(\"python\", \"print(b'xyz'.decode('ascii'))\");",
  "            \x7d",
  "        \x7d",
  "    \x7d",
  "\x7d"]

end SuiteGate.GraalVm
